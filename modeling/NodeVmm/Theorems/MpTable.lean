import NodeVmm.Lib.MpTable
import NodeVmm.MpTable
import NodeVmm.Theorems.AcpiTables

/-! The guest finds in the table of the multiprocessor specification what the host means: every processor, the interrupt
    controller and the pin of each interrupt. -/

namespace NodeVmm.Mp
open Checked Reader
open Acpi (zeros not64 tableSum)
open Words (ascii)
open Fields (putAt word field)
open MpTable (Entry Config)

section
variable {front table content : Bytes} {cpus n count : Nat} {pin : Nat → Nat}

/-! ### The bytes -/

/-- The floating pointer to a configuration. --/
def floating (addr : Nat) : Bytes :=
  (ascii "_MP_" ++ (Words.le 4 addr ++ [1, 4])) ++
    (~~~tableSum ((ascii "_MP_" ++ (Words.le 4 addr ++ [1, 4])) ++ 0 :: zeros 5) + 1) :: zeros 5

def headerFront (n : Nat) : Bytes := ascii "PCMP" ++ (Words.le 2 (44 + n) ++ [4])

def headerRest (count : Nat) : Bytes :=
  ascii "FC      " ++ (ascii "000000000000" ++ (zeros 6 ++ (Words.le 2 count ++ (Words.le 4 apicDefaultBase ++ zeros 4))))

/-- The configuration of `count` entries. --/
def configBytes (count : Nat) (content : Bytes) : Bytes :=
  headerFront content.length ++
    (~~~tableSum (headerFront content.length ++ 0 :: (headerRest count ++ content)) + 1) :: (headerRest count ++ content)

theorem length_floating (addr : Nat) : (floating addr).length = 16 := rfl

theorem length_configBytes : (configBytes count content).length = 44 + content.length := by
  have hfront : (headerFront content.length).length = 7 := rfl
  have hrest : (headerRest count).length = 36 := rfl
  rw [configBytes, List.length_append, List.length_cons, List.length_append, hfront, hrest]
  omega

/-- What is written behind the first bytes. --/
theorem putAt_behind (h : front.length = 16) (off : Nat) {bytes : Bytes} :
    putAt (front ++ table) (16 + off) bytes = front ++ putAt table off bytes := Fields.putAt_append h

theorem putAt_all {bytes : Bytes} (h : front.length = n) (hlength : bytes.length = table.length) :
    putAt (front ++ table) n bytes = front ++ bytes := by
  have hput : putAt (front ++ table) (n + 0) bytes = front ++ putAt table 0 bytes := Fields.putAt_append h
  rw [Nat.add_zero] at hput
  rw [hput, putAt, List.take_zero, List.nil_append, Nat.zero_add, List.drop_of_length_le (Nat.le_of_eq hlength.symm),
    List.append_nil]

theorem length_entries : (entries cpus pin).flatten.length = 20 * cpus + 224 := by
  have hprocessors : ((List.range cpus).map processorEntry).flatten.length = 20 * cpus := by
    rw [← List.flatMap_def, List.length_flatMap]
    simp [processorEntry, zeros, Nat.mul_comm]
  have hinterrupts : ((List.range (maxLegacyGsi + 1)).map fun irq =>
      interruptEntry (UInt8.ofNat (cpus + 1)) irq (pin irq)).flatten.length = 192 := rfl
  have hdevices : ([busEntry, ioApicEntry (UInt8.ofNat (cpus + 1))] : List Bytes).flatten.length = 16 := rfl
  have hlocals : ([extintEntry, nmiEntry] : List Bytes).flatten.length = 16 := rfl
  rw [entries]
  simp only [List.flatten_append, List.length_append, hprocessors, hinterrupts, hdevices, hlocals]

theorem length_all : (entries cpus pin).length = cpus + 28 := by
  simp [entries, maxLegacyGsi]

theorem tableSize_eq (cpus : Nat) : tableSize cpus = 16 + (44 + (20 * cpus + 224)) := by
  simp only [tableSize, maxLegacyGsi]
  omega

/-- The floating pointer before its checksum is written. --/
def pointerPatches (addr : Nat) : List Patch :=
  [⟨0, ascii "_MP_"⟩, ⟨4, Words.le 4 addr⟩, ⟨8, [1]⟩, ⟨9, [4]⟩]

/-- The header before the content and its checksum are written. --/
def headerPatches (n count : Nat) : List Patch :=
  [⟨0, ascii "PCMP"⟩, ⟨4, Words.le 2 (44 + n)⟩, ⟨6, [4]⟩, ⟨8, ascii "FC      "⟩, ⟨16, ascii "000000000000"⟩,
    ⟨34, Words.le 2 count⟩, ⟨36, Words.le 4 apicDefaultBase⟩]

theorem length_zeros (n : Nat) : (zeros n).length = n := List.length_replicate

theorem pointerPatches_fit (addr : Nat) : ∀ p ∈ pointerPatches addr, p.off + p.bytes.length ≤ (zeros 16).length := by
  simp only [pointerPatches, List.forall_mem_cons, Words.length_le, length_zeros]
  decide

theorem headerPatches_fit (n count : Nat) : ∀ p ∈ headerPatches n count, p.off + p.bytes.length ≤ (zeros 44).length := by
  simp only [headerPatches, List.forall_mem_cons, Words.length_le, length_zeros]
  decide

theorem floating_eq (addr : Nat) :
    putAt (Fields.putAll (zeros 16) (pointerPatches addr)) 10
      [~~~tableSum (Fields.putAll (zeros 16) (pointerPatches addr)) + 1] = floating addr := rfl

theorem header_eq (n count : Nat) :
    Fields.putAll (zeros 44) (headerPatches n count) = headerFront n ++ 0 :: headerRest count := rfl

/-- What is behind the first sixteen bytes, with its checksum. --/
theorem configBytes_eq (count : Nat) (content : Bytes) :
    putAt (headerFront content.length ++ 0 :: headerRest count ++ content) 7
      [~~~tableSum (headerFront content.length ++ 0 :: headerRest count ++ content) + 1] = configBytes count content := by
  have hsplit : headerFront content.length ++ 0 :: headerRest count ++ content =
      headerFront content.length ++ 0 :: (headerRest count ++ content) := by
    rw [List.append_assoc, List.cons_append]
  rw [hsplit]
  rfl

/-- The table is the floating pointer and the configuration that it leads to, each with its checksum. --/
theorem buildMpTable_eq : buildMpTable cpus pin = floating (tableStart cpus + 16) ++
    configBytes (entries cpus pin).length (entries cpus pin).flatten := by
  obtain ⟨content, hcontent⟩ : ∃ content, (entries cpus pin).flatten = content := ⟨_, rfl⟩
  obtain ⟨addr, haddr⟩ : ∃ addr, tableStart cpus + 16 = addr := ⟨_, rfl⟩
  obtain ⟨count, hcount⟩ : ∃ count, (entries cpus pin).length = count := ⟨_, rfl⟩
  have hlength : content.length = 20 * cpus + 224 := by rw [← hcontent, length_entries]
  obtain ⟨F, hF⟩ : ∃ F, Fields.putAll (zeros 16) (pointerPatches addr) = F := ⟨_, rfl⟩
  have hF' : F.length = 16 := by rw [← hF]; rfl
  have hpointer : putAt (putAt (putAt (putAt (zeros (tableSize cpus)) 0 (ascii "_MP_")) 4 (Words.le 4 addr)) 8 [1]) 9 [4] =
      F ++ zeros (44 + content.length) := by
    rw [tableSize_eq, Acpi.zeros_add, ← hlength, ← hF]
    exact Fields.putAll_append_left (pointerPatches_fit addr)
  have hsum : checksum (F ++ zeros (44 + content.length)) 0 16 = ~~~tableSum F + 1 := by
    rw [checksum, List.drop_zero, List.take_left' hF']
  have hfloating : putAt (F ++ zeros (44 + content.length)) 10 [~~~tableSum F + 1] =
      floating addr ++ (zeros 44 ++ zeros content.length) := by
    rw [Fields.putAt_append_left (by rw [hF', List.length_singleton]; decide), ← hF, floating_eq, Acpi.zeros_add]
  obtain ⟨H, hH⟩ : ∃ H, Fields.putAll (zeros 44) (headerPatches content.length count) = H := ⟨_, rfl⟩
  have hH' : H.length = 44 := by rw [← hH]; rfl
  have hheader : Fields.putAll (floating addr ++ (zeros 44 ++ zeros content.length))
      ((headerPatches content.length count).map (Patch.shift 16)) = floating addr ++ (H ++ zeros content.length) := by
    rw [Fields.putAll_append (length_floating addr),
      Fields.putAll_append_left (headerPatches_fit content.length count), hH]
  have hcontent' : putAt (floating addr ++ (H ++ zeros content.length)) 60 content = floating addr ++ (H ++ content) := by
    rw [putAt_behind (length_floating addr) 44, putAt_all hH' (length_zeros _).symm]
  have hsum' : checksum (floating addr ++ (H ++ content)) 16 (44 + content.length) = ~~~tableSum (H ++ content) + 1 := by
    rw [checksum, List.drop_left' (length_floating addr),
      List.take_of_length_le (Nat.le_of_eq (by rw [List.length_append, hH']))]
  have hconfig : putAt (floating addr ++ (H ++ content)) 23 [~~~tableSum (H ++ content) + 1] =
      floating addr ++ configBytes count content := by
    rw [putAt_behind (length_floating addr) 7, ← hH, header_eq, configBytes_eq]
  simp only [headerPatches, Fields.putAll, List.map_cons, List.map_nil, List.foldl_cons, List.foldl_nil, Patch.shift,
    Nat.reduceAdd] at hheader
  rw [buildMpTable]
  simp only [hcontent, haddr, hcount, hpointer, hsum, hfloating, hheader, hcontent', hsum', hconfig]

/-! ### What the guest reads -/

/-- The entries for so many processors. --/
def configEntries (cpus : Nat) (pin : Nat → Nat) : List Entry :=
  (List.range cpus).map (fun i => .processor i 0x14 true (i == 0)) ++
    [.bus 0 (ascii "ISA   "), .ioApic (cpus + 1) 0x14 true ioApicBase] ++
    (List.range 24).map (fun irq => .interrupt 0 0 0 irq (cpus + 1) (pin irq)) ++
    [.localInterrupt 3 0 0 0 0 0, .localInterrupt 1 0 0 0 0xFF 1]

theorem le_one (v : Nat) : Words.le 1 v = [UInt8.ofNat v] := rfl

theorem processorEntry_eq (i : Nat) : processorEntry i = Words.le 1 0 ++ (Words.le 1 i ++ (Words.le 1 0x14 ++
    (Words.le 1 (if i = 0 then 3 else 1) ++ (Words.le 4 0x600 ++ Words.le 4 (0x200 ||| 0x001) ++ zeros 8)))) := by
  have hflags : (0x01 ||| if i = 0 then 0x02 else 0 : UInt8) = UInt8.ofNat (if i = 0 then 3 else 1) := by
    split <;> decide
  have hversion : apicVersion = UInt8.ofNat 0x14 := by decide
  have htype : (0 : UInt8) = UInt8.ofNat 0 := by decide
  rw [processorEntry, hflags, hversion, htype]
  simp only [le_one, List.cons_append, List.nil_append, List.append_assoc]

theorem busEntry_eq : busEntry = Words.le 1 1 ++ (Words.le 1 0 ++ ascii "ISA   ") := rfl

theorem ioApicEntry_eq (id : Nat) : ioApicEntry (UInt8.ofNat id) =
    Words.le 1 2 ++ (Words.le 1 id ++ (Words.le 1 0x14 ++ (Words.le 1 1 ++ Words.le 4 ioApicBase))) := by
  simp only [ioApicEntry, le_one, List.cons_append, List.nil_append]
  rfl

theorem interruptEntry_eq (id irq pin : Nat) : interruptEntry (UInt8.ofNat id) irq pin =
    Words.le 1 3 ++ (Words.le 1 0 ++ (Words.le 2 0 ++ (Words.le 1 0 ++ (Words.le 1 irq ++
      (Words.le 1 id ++ Words.le 1 pin))))) := by
  simp only [interruptEntry, le_one, List.cons_append, List.nil_append]
  rfl

theorem extintEntry_eq : extintEntry = Words.le 1 4 ++ (Words.le 1 3 ++ (Words.le 2 0 ++ (Words.le 1 0 ++ (Words.le 1 0 ++
    (Words.le 1 0 ++ Words.le 1 0))))) := rfl

theorem nmiEntry_eq : nmiEntry = Words.le 1 4 ++ (Words.le 1 1 ++ (Words.le 2 0 ++ (Words.le 1 0 ++ (Words.le 1 0 ++
    (Words.le 1 0xFF ++ Words.le 1 1))))) := rfl

theorem reads_processorEntry {i : Nat} (hi : i < 256) :
    Reads MpTable.entry (processorEntry i) (.processor i 0x14 true (i == 0)) := by
  have hrest : (Words.le 4 0x600 ++ Words.le 4 (0x200 ||| 0x001) ++ zeros 8).length = 16 := rfl
  have hflags : (if i = 0 then 3 else 1) < 256 := by split <;> decide
  have hread := MpTable.reads_processor hi (by decide : 0x14 < 256) hflags hrest
  have henabled : (if i = 0 then 3 else 1 : Nat).testBit 0 = true := by split <;> rfl
  have hbootstrap : (if i = 0 then 3 else 1 : Nat).testBit 1 = (i == 0) := by
    split
    · rename_i hzero
      rw [hzero]
      rfl
    · rename_i hzero
      rw [beq_false_of_ne hzero]
      rfl
  rw [henabled, hbootstrap] at hread
  rw [processorEntry_eq]
  exact hread

/-- Each entry with what is read. --/
def pieces (cpus : Nat) (pin : Nat → Nat) : List (Bytes × Entry) :=
  (List.range cpus).map (fun i => (processorEntry i, .processor i 0x14 true (i == 0))) ++
    [(busEntry, .bus 0 (ascii "ISA   ")), (ioApicEntry (UInt8.ofNat (cpus + 1)), .ioApic (cpus + 1) 0x14 true ioApicBase)] ++
    (List.range 24).map (fun irq => (interruptEntry (UInt8.ofNat (cpus + 1)) irq (pin irq),
      .interrupt 0 0 0 irq (cpus + 1) (pin irq))) ++
    [(extintEntry, .localInterrupt 3 0 0 0 0 0), (nmiEntry, .localInterrupt 1 0 0 0 0xFF 1)]

theorem pieces_read (hcpus : cpus ≤ 254) (hpin : ∀ irq < 24, pin irq < 256) :
    ∀ x ∈ pieces cpus pin, Reads MpTable.entry x.1 x.2 := by
  have hprocessors : ∀ x ∈ (List.range cpus).map fun i => (processorEntry i, Entry.processor i 0x14 true (i == 0)),
      Reads MpTable.entry x.1 x.2 := by
    intro x hx
    obtain ⟨i, hi, rfl⟩ := List.mem_map.mp hx
    exact reads_processorEntry (by have := List.mem_range.mp hi; omega)
  have hinterrupts : ∀ x ∈ (List.range 24).map fun irq => (interruptEntry (UInt8.ofNat (cpus + 1)) irq (pin irq),
      Entry.interrupt 0 0 0 irq (cpus + 1) (pin irq)), Reads MpTable.entry x.1 x.2 := by
    intro x hx
    obtain ⟨irq, hirq, rfl⟩ := List.mem_map.mp hx
    have hlt := List.mem_range.mp hirq
    have hread := MpTable.reads_interrupt (Or.inl rfl : 3 = 3 ∨ 3 = 4) (by decide : 0 < 256) (by decide : 0 < 2 ^ 16)
      (by decide : 0 < 256) (by omega : irq < 256) (by omega : cpus + 1 < 256) (hpin irq hlt)
    rw [if_pos rfl, ← interruptEntry_eq] at hread
    exact hread
  have hbus : Reads MpTable.entry busEntry (.bus 0 (ascii "ISA   ")) := by
    rw [busEntry_eq]
    exact MpTable.reads_bus (by decide) rfl
  have hioApic : Reads MpTable.entry (ioApicEntry (UInt8.ofNat (cpus + 1))) (.ioApic (cpus + 1) 0x14 true ioApicBase) := by
    rw [ioApicEntry_eq]
    exact MpTable.reads_ioApic (by omega) (by decide) (by decide) (by decide)
  have hextint : Reads MpTable.entry extintEntry (.localInterrupt 3 0 0 0 0 0) := by
    rw [extintEntry_eq]
    exact MpTable.reads_interrupt (Or.inr rfl) (by decide) (by decide) (by decide) (by decide) (by decide) (by decide)
  have hnmi : Reads MpTable.entry nmiEntry (.localInterrupt 1 0 0 0 0xFF 1) := by
    rw [nmiEntry_eq]
    exact MpTable.reads_interrupt (Or.inr rfl) (by decide) (by decide) (by decide) (by decide) (by decide) (by decide)
  simp only [pieces, List.forall_mem_append, List.forall_mem_cons]
  exact ⟨⟨⟨hprocessors, hbus, hioApic, List.forall_mem_nil _⟩, hinterrupts⟩, hextint, hnmi, List.forall_mem_nil _⟩

theorem flatten_pieces : ((pieces cpus pin).map Prod.fst).flatten = (entries cpus pin).flatten := by
  simp [pieces, entries, maxLegacyGsi, Function.comp_def]

theorem run_entries (hcpus : cpus ≤ 254) (hpin : ∀ irq < 24, pin irq < 256) :
    run (times MpTable.entry (entries cpus pin).length) (entries cpus pin).flatten = some (configEntries cpus pin) := by
  have hread := reads_times (pieces cpus pin) (pieces_read hcpus hpin)
  have hlength : (pieces cpus pin).length = (entries cpus pin).length := by simp [pieces, entries, maxLegacyGsi]
  have hentries : (pieces cpus pin).map Prod.snd = configEntries cpus pin := by
    simp [pieces, configEntries, Function.comp_def]
  rw [hlength, hentries, flatten_pieces] at hread
  exact hread.ends.run

theorem pointerAt_eq {mem : ByteStore} {addr a : Nat} (ha : a < 2 ^ 32) (h : mem.read addr 16 = floating a) :
    MpTable.pointerAt mem addr = some a := by
  have hsum : Fields.sum (floating a) % 256 = 0 := Acpi.sum_checksum _ _
  have hword : word (floating a) 4 4 = a := Fields.word_eq rfl (by omega)
  have hpages : word (floating a) 8 1 = 1 := rfl
  have hfeatures : word (floating a) 11 1 = 0 := rfl
  have hsig : field (floating a) 0 4 = ascii "_MP_" := rfl
  rw [MpTable.pointerAt, h, hpages, hfeatures, hsig, hword, if_pos ⟨rfl, rfl, hsum, rfl⟩]

theorem config_eq {es : List Entry} (hcount : count < 2 ^ 16) (hrun : run (times MpTable.entry count) content = some es) :
    MpTable.config (configBytes count content) = some ⟨apicDefaultBase, es⟩ := by
  have hsum : Fields.sum (configBytes count content) % 256 = 0 := Acpi.sum_checksum _ _
  have hsig : field (configBytes count content) 0 4 = ascii "PCMP" := rfl
  have hcount' : word (configBytes count content) 34 2 = count := Fields.word_eq rfl (by omega)
  have hlocal : word (configBytes count content) 36 4 = apicDefaultBase := Fields.word_eq rfl (by decide)
  have hdrop : (configBytes count content).drop 44 = content := rfl
  rw [MpTable.config, if_pos ⟨hsig, hsum⟩, hcount', hlocal, hdrop, hrun]
  rfl

theorem length_word (h : content.length + 44 < 2 ^ 16) :
    word (configBytes count content) 4 2 = (configBytes count content).length := by
  rw [length_configBytes]
  exact Fields.word_eq rfl (by omega)

section
variable {mem : ByteStore}

/-- The table is in the memory. --/
def Has (mem : ByteStore) (cpus : Nat) (pin : Nat → Nat) : Prop :=
  mem.read (tableStart cpus) (buildMpTable cpus pin).length = buildMpTable cpus pin ∧
    tableStart cpus + (buildMpTable cpus pin).length ≤ mem.size

theorem Has.pointerAt (h : Has mem cpus pin) (hstart : tableStart cpus < 0xA0000) :
    MpTable.pointerAt mem (tableStart cpus) = some (tableStart cpus + 16) := by
  have hread := h.1
  rw [buildMpTable_eq, List.length_append, length_floating, ByteStore.read_add] at hread
  exact pointerAt_eq (by omega) (List.append_inj_left hread (by rw [ByteStore.length_read, length_floating]))

/-- The configuration is found where the table is. --/
theorem Has.configAt (h : Has mem cpus pin) (hcpus : cpus ≤ 254) (hpin : ∀ irq < 24, pin irq < 256)
    (hstart : tableStart cpus < 0xA0000) :
    MpTable.configAt mem (tableStart cpus) = some ⟨apicDefaultBase, configEntries cpus pin⟩ := by
  have hpointer := h.pointerAt hstart
  obtain ⟨hread, hin⟩ := h
  rw [buildMpTable_eq, List.length_append, length_floating] at hread hin
  rw [ByteStore.read_add] at hread
  have hrest := List.append_inj_right hread (by rw [ByteStore.length_read, length_floating])
  have hlength : (configBytes (entries cpus pin).length (entries cpus pin).flatten).length = 268 + 20 * cpus := by
    rw [length_configBytes, length_entries]
    omega
  refine MpTable.configAt_eq hpointer hrest (by omega) (by omega) (length_word ?_) (config_eq ?_ (run_entries hcpus hpin))
  · rw [length_entries]
    omega
  · rw [length_all]
    omega

end

/-! ### The search -/

/-- Of four bytes each, the first is not the first sign of the signature. --/
def NoSign : Bytes → Prop
  | [] => True
  | b :: _ :: _ :: _ :: rest => b ≠ 0x5F ∧ NoSign rest
  | _ => False

theorem NoSign.append {s t : Bytes} (hs : NoSign s) (ht : NoSign t) : NoSign (s ++ t) := by
  fun_induction NoSign s with
  | case1 => exact ht
  | case2 b c d e rest ih => exact ⟨hs.1, ih hs.2⟩
  | case3 => cases hs

theorem NoSign.flatten {l : List Bytes} (h : ∀ s ∈ l, NoSign s) : NoSign l.flatten := by
  induction l with
  | nil => trivial
  | cons s l ih =>
    obtain ⟨hs, hl⟩ := List.forall_mem_cons.mp h
    exact hs.append (ih hl)

theorem NoSign.ne {s : Bytes} {b : UInt8} {i : Nat} (h : NoSign s) (hb : s[4 * i]? = some b) : b ≠ 0x5F := by
  fun_induction NoSign s generalizing i with
  | case1 => cases hb
  | case2 c _ _ _ rest ih =>
    cases i with
    | zero =>
      cases hb
      exact h.1
    | succ i => exact ih h.2 hb
  | case3 => cases h

theorem noSign_entries : NoSign (entries cpus pin).flatten := by
  refine NoSign.flatten ?_
  simp only [entries, List.forall_mem_append, List.forall_mem_cons, List.forall_mem_map]
  have hprocessor : ∀ i, NoSign (processorEntry i) := fun i =>
    ⟨by decide, by decide, by decide, by decide, by decide, trivial⟩
  have hinterrupt : ∀ id irq pin, NoSign (interruptEntry id irq pin) := fun _ _ _ => ⟨by decide, by decide, trivial⟩
  exact ⟨⟨⟨fun i _ => hprocessor i, ⟨by decide, by decide, trivial⟩, ⟨by decide, by decide, trivial⟩, List.forall_mem_nil _⟩,
    fun irq _ => hinterrupt _ irq _⟩, ⟨by decide, by decide, trivial⟩, ⟨by decide, by decide, trivial⟩, List.forall_mem_nil _⟩

/-- Only the first paragraph of the table begins like a floating pointer. --/
theorem buildMpTable_ne {k : Nat} {b : UInt8} (hk : 0 < k) (hb : (buildMpTable cpus pin)[16 * k]? = some b) : b ≠ 0x5F := by
  rw [buildMpTable_eq, List.getElem?_append_right (by rw [length_floating]; omega), length_floating] at hb
  rcases Nat.lt_or_ge k 4 with hheader | hcontent
  · have hcases : k = 1 ∨ k = 2 ∨ k = 3 := by omega
    rcases hcases with rfl | rfl | rfl
    all_goals cases hb
    all_goals decide
  · obtain ⟨i, hi⟩ : ∃ i, 16 * k - 16 = 44 + 4 * i := ⟨4 * k - 15, by omega⟩
    have hdrop : (configBytes (entries cpus pin).length (entries cpus pin).flatten).drop 44 = (entries cpus pin).flatten := rfl
    rw [hi, ← List.getElem?_drop, hdrop] at hb
    exact noSign_entries.ne hb

theorem length_buildMpTable (cpus : Nat) (pin : Nat → Nat) : (buildMpTable cpus pin).length = tableSize cpus := by
  rw [buildMpTable_eq, List.length_append, length_floating, length_configBytes, length_entries, tableSize_eq]

theorem tableStart_eq (cpus : Nat) : tableStart cpus = (0xA0000 - tableSize cpus) / 16 * 16 := by
  have hsize : baseRamEnd - tableSize cpus < 2 ^ 64 := by
    simp only [baseRamEnd]
    omega
  have hmask : not64 0xF = not64 (2 ^ 4 - 1) := rfl
  rw [tableStart, hmask, Acpi.and_not64 hsize (by decide)]
  rfl

/-- From here on the memory map gives the memory below 640 KiB to the firmware; the search goes through this kibibyte. --/
def searchStart : Nat := 0x9FC00

section
variable {mem : ByteStore}

theorem tableStart_spec (hcpus : cpus ≤ 254) : tableStart cpus % 16 = 0 ∧ tableStart cpus + tableSize cpus ≤ 0xA0000 ∧
    0xA0000 < tableStart cpus + tableSize cpus + 16 := by
  have hstart := tableStart_eq cpus
  have hsize := tableSize_eq cpus
  omega

/-- The first byte of a paragraph of the kibibyte, but not of the table. --/
theorem byte_paragraph (hcpus : cpus ≤ 254) {j : Nat} (hclean : mem.byte (searchStart + j * 16) ≠ 0x5F)
    (hne : searchStart + j * 16 ≠ tableStart cpus) :
    (mem.patch [⟨tableStart cpus, buildMpTable cpus pin⟩]).byte (searchStart + j * 16) ≠ 0x5F := by
  have hsearch : searchStart = 16 * 0x9FC0 := rfl
  obtain ⟨hparagraph, -, -⟩ := tableStart_spec hcpus
  by_cases hin : ByteStore.Within (tableStart cpus) (buildMpTable cpus pin).length (searchStart + j * 16)
  · have hlow := hin.1
    have hhigh := hin.2
    obtain ⟨k, hk⟩ : ∃ k, searchStart + j * 16 - tableStart cpus = 16 * k :=
      ⟨(searchStart + j * 16 - tableStart cpus) / 16, by omega⟩
    have hbyte : (mem.patch [⟨tableStart cpus, buildMpTable cpus pin⟩]).byte (searchStart + j * 16) =
        (buildMpTable cpus pin).getD (16 * k) 0 := by
      rw [← hk]
      exact ByteStore.byte_write_of_within hin
    have hlt : 16 * k < (buildMpTable cpus pin).length := by omega
    rw [hbyte, List.getD_eq_getElem _ _ hlt]
    exact buildMpTable_ne (by omega) (List.getElem?_eq_getElem hlt)
  · rw [ByteStore.byte_patch (List.forall_mem_singleton.mpr hin)]
    exact hclean

/-- The search of the kibibyte finds the table if all of it is there. --/
theorem search_table (hcpus : cpus ≤ 254) (hmem : 0xA0000 ≤ mem.size)
    (hclean : ∀ j < 64, mem.byte (searchStart + j * 16) ≠ 0x5F) :
    MpTable.search (mem.patch [⟨tableStart cpus, buildMpTable cpus pin⟩]) searchStart 64 =
      if cpus ≤ 37 then some (tableStart cpus) else none := by
  have hsearch : searchStart = 0x9FC00 := rfl
  have hsize := tableSize_eq cpus
  obtain ⟨hparagraph, hend, hlast⟩ := tableStart_spec hcpus
  have hnone : ∀ j < 64, searchStart + j * 16 ≠ tableStart cpus →
      MpTable.pointerAt (mem.patch [⟨tableStart cpus, buildMpTable cpus pin⟩]) (searchStart + j * 16) = none :=
    fun j hj hne => MpTable.pointerAt_none (byte_paragraph hcpus (hclean j hj) hne)
  by_cases hfew : cpus ≤ 37
  · rw [if_pos hfew]
    obtain ⟨i, hi⟩ : ∃ i, tableStart cpus = searchStart + i * 16 := ⟨(tableStart cpus - searchStart) / 16, by omega⟩
    have hhas : Has (mem.patch [⟨tableStart cpus, buildMpTable cpus pin⟩]) cpus pin :=
      ⟨ByteStore.read_write_self, by rw [ByteStore.size_patch, length_buildMpTable]; omega⟩
    have hpointer := hhas.pointerAt (by omega)
    rw [hi] at hpointer hnone ⊢
    refine MpTable.search_eq (by omega) (by rw [hpointer]; rfl) fun j hj => hnone j (by omega) (by omega)
  · rw [if_neg hfew]
    exact MpTable.search_none fun j hj => hnone j hj (by omega)

/-! ### The result -/

/-- What the guest finds in the memory `m` that the host made of `mem`. --/
structure Found (mem m : ByteStore) (cpus : Nat) (pin : Nat → Nat) : Prop where
  config : MpTable.configAt m (tableStart cpus) = some ⟨apicDefaultBase, configEntries cpus pin⟩
  search : (∀ j < 64, mem.byte (searchStart + j * 16) ≠ 0x5F) →
    MpTable.search m searchStart 64 = if cpus ≤ 37 then some (tableStart cpus) else none
  frame : ByteStore.AgreeOn (fun i => ¬ByteStore.Within (tableStart cpus) (tableSize cpus) i) mem m

theorem found_table (hcpus : cpus ≤ 254) (hpin : ∀ irq < 24, pin irq < 256) (hmem : 0xA0000 ≤ mem.size) :
    Found mem (mem.patch [⟨tableStart cpus, buildMpTable cpus pin⟩]) cpus pin := by
  obtain ⟨-, hend, -⟩ := tableStart_spec hcpus
  have hsize := tableSize_eq cpus
  have hlength := length_buildMpTable cpus pin
  have hhas : Has (mem.patch [⟨tableStart cpus, buildMpTable cpus pin⟩]) cpus pin :=
    ⟨ByteStore.read_write_self, by rw [ByteStore.size_patch]; omega⟩
  refine ⟨hhas.configAt hcpus hpin (by omega), search_table hcpus hmem, ByteStore.agreeOn_patch ?_⟩
  refine List.forall_mem_singleton.mpr fun i hi hn => hn ?_
  rwa [hlength] at hi

/-- `WriteMpTable` succeeds if the memory reaches 640 KiB. The guest then reads from the table every processor, the first
    one as the one that starts, the interrupt controller and where each interrupt goes; with WHP the timer's one goes to the
    pin that was asked for. But the search that leads to the table finds it only for up to 37 processors. --/
theorem mp_table (mem : ByteStore) (cpus pitIoApicPin : Nat) (hcpus : cpus ≤ 254) (hpit : pitIoApicPin < 256)
    (hmem : 0xA0000 ≤ mem.size) :
    (∃ m, Kvm.writeMpTable mem cpus = .ok m ∧ Found mem m cpus fun irq => irq) ∧
      ∃ m, Whp.writeMpTable mem cpus pitIoApicPin = .ok m ∧
        Found mem m cpus fun irq => if irq = 0 then pitIoApicPin else irq := by
  obtain ⟨-, hend, -⟩ := tableStart_spec hcpus
  have hfit : ∀ pin, tableStart cpus + (buildMpTable cpus pin).length ≤ mem.size := fun pin => by
    rw [length_buildMpTable]
    omega
  have hrange : Backend.whp.checkRange mem.size (tableStart cpus) (tableSize cpus) "MP table" = .ok () :=
    Backend.checkRange_of_le (by omega)
  refine ⟨⟨_, Backend.put_eq (hfit _) (Nat.le_refl _), found_table hcpus (fun irq hirq => by omega) hmem⟩,
    ⟨_, ?_, found_table hcpus (fun irq hirq => ?_) hmem⟩⟩
  · have hput : ∀ pin, Backend.whp.put mem (tableStart cpus) (buildMpTable cpus pin).length (buildMpTable cpus pin) =
        .ok (mem.patch [⟨tableStart cpus, buildMpTable cpus pin⟩]) := fun pin => Backend.put_eq (hfit pin) (Nat.le_refl _)
    rw [Whp.writeMpTable, hrange]
    exact hput _
  · split <;> omega

/-- The most processors that KVM takes. --/
theorem mp_table_many : ∃ m, Kvm.writeMpTable ⟨0x100000, fun _ => 0⟩ 64 = .ok m ∧
    MpTable.configAt m (tableStart 64) = some ⟨apicDefaultBase, configEntries 64 fun irq => irq⟩ ∧
      MpTable.search m searchStart 64 = none := by
  obtain ⟨⟨m, hm, hfound⟩, -⟩ := mp_table ⟨0x100000, fun _ => 0⟩ 64 2 (by decide) (by decide) (by decide)
  exact ⟨m, hm, hfound.config, hfound.search fun _ _ => (by decide : (0 : UInt8) ≠ 0x5F)⟩

end

end
end NodeVmm.Mp
