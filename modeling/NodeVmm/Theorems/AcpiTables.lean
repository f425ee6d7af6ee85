import NodeVmm.AcpiTables
import NodeVmm.Lib.SystemTables
import NodeVmm.Theorems.Aml
import NodeVmm.Theorems.PageTables

/-! What the guest finds by the root pointer that the host gives it: the tables are sound, and say which processors and which
    interrupt controller there are and where the devices are described. --/

namespace NodeVmm.Acpi
open Checked Reader
open Words (ascii)
open Fields (putAt field word)
open SystemTables (Table Roots Controller Machine)

/-! ### Checksums -/

section
variable {front rest table body sig tableId : Bytes} {rev : UInt8} {n : Nat}

theorem sum_eq : Fields.sum table = Aml.byteSum table := rfl

/-- A byte that is minus the sum of the others makes it zero. --/
theorem sum_checksum (front rest : Bytes) :
    Fields.sum (front ++ (~~~tableSum (front ++ (0 :: rest)) + 1) :: rest) % 256 = 0 := by
  have hall : Fields.sum (front ++ (0 :: rest)) = Fields.sum front + Fields.sum rest := by
    rw [Fields.sum_append, Fields.sum_cons, UInt8.toNat_zero, Nat.zero_add]
  have hsum := Aml.tableSum_toNat (front ++ (0 :: rest))
  have hneg : (~~~tableSum (front ++ (0 :: rest)) + 1).toNat =
      (255 - (tableSum (front ++ (0 :: rest))).toNat + 1) % 256 := by
    rw [UInt8.toNat_add, UInt8.toNat_not]
    rfl
  rw [← sum_eq, hall] at hsum
  rw [Fields.sum_append, Fields.sum_cons, hneg, hsum]
  omega

/-! ### Headers -/

/-- The header of a table, with its checksum, and the body. --/
theorem sdt_eq (hsig : sig.length = 4) (hid : tableId.length = 8) (hbody : body.length < 2 ^ 32 - 36) :
    ∃ c rest, rest.length = 26 ∧ sdt sig rev tableId body =
      sig ++ (Words.le 4 (36 + body.length) ++ ([rev, c] ++ (rest ++ body))) := by
  have hsize : (UInt32.ofNat (36 + body.length)).toNat = 36 + body.length :=
    UInt32.toNat_ofNat_of_lt' (show _ < 2 ^ 32 by omega)
  obtain ⟨c, hc⟩ := Aml.finalizeSdt_eq (buildSdtHeader sig (UInt32.ofNat (36 + body.length)) rev tableId ++ body)
  refine ⟨c, ascii "GOCRKR" ++ tableId ++ [0, 0, 0, 0] ++ Words.le 4 0x47434154 ++ Words.le 4 0x20260402, ?_, ?_⟩
  · simp only [List.length_append, hid, Words.length_le]
    rfl
  · have hfront : (sig ++ (Words.le 4 (36 + body.length) ++ [rev])).length = 9 := by
      simp only [List.length_append, hsig, Words.length_le, List.length_singleton]
    have hheader : buildSdtHeader sig (UInt32.ofNat (36 + body.length)) rev tableId ++ body =
        (sig ++ (Words.le 4 (36 + body.length) ++ [rev])) ++ 0 :: (ascii "GOCRKR" ++ tableId ++ [0, 0, 0, 0] ++
          Words.le 4 0x47434154 ++ Words.le 4 0x20260402 ++ body) := by
      simp only [buildSdtHeader, hsize, List.take_of_length_le (Nat.le_of_eq hsig), List.take_of_length_le (Nat.le_of_eq hid),
        List.append_assoc, List.cons_append, List.nil_append]
    rw [sdt, hc, hheader, List.set_append_right _ _ (Nat.le_of_eq hfront), hfront]
    simp only [Nat.sub_self, List.set_cons_zero, List.append_assoc, List.cons_append, List.nil_append]

/-- A table has its signature and its size in the header, the sum of its bytes is zero, and its body is behind the header. --/
theorem table_sdt (hsig : sig.length = 4) (hid : tableId.length = 8) (hbody : body.length < 2 ^ 32 - 36) :
    (sdt sig rev tableId body).length = 36 + body.length ∧
      SystemTables.table (sdt sig rev tableId body) = some ⟨sig, body⟩ := by
  obtain ⟨c, rest, hrest, heq⟩ := @sdt_eq body sig tableId rev hsig hid hbody
  have hlength : (sdt sig rev tableId body).length = 36 + body.length := by
    rw [heq]
    simp only [List.length_append, hsig, Words.length_le, hrest, List.length_cons, List.length_nil]
    omega
  have hword : Fields.word (sdt sig rev tableId body) 4 4 = 36 + body.length := by
    refine Fields.word_eq ?_ (by omega)
    rw [heq, Fields.field, List.drop_left' hsig, List.take_left' Words.length_le]
  have hdrop : (sdt sig rev tableId body).drop 36 = body := by
    rw [heq, ← List.append_assoc, ← List.append_assoc, ← List.append_assoc]
    refine List.drop_left' ?_
    simp only [List.length_append, hsig, Words.length_le, hrest, List.length_cons, List.length_nil]
  have hsum : Fields.sum (sdt sig rev tableId body) % 256 = 0 := by
    refine Aml.byteSum_finalizeSdt ?_
    rw [sdt, Aml.length_finalizeSdt] at hlength
    omega
  refine ⟨hlength, ?_⟩
  rw [SystemTables.table, if_pos ⟨by omega, hword.trans hlength.symm, hsum⟩, hdrop, heq, List.take_left' hsig]

/-! ### The fixed description table -/

theorem length_putAll {ps : List Patch} (h : Patch.Ordered n 0 ps) : (Fields.putAll (zeros n) ps).length = n := by
  have hzeros : (zeros n).length = n := List.length_replicate
  rw [Fields.length_putAll fun p hp => by rw [hzeros]; exact (h.inside hp).2, hzeros]

/-- What `BuildFadt` writes behind the header. --/
def Kvm.fadtPatches (dsdtAddr : Nat) : List Patch :=
  [⟨4, Words.le 4 dsdtAddr⟩, ⟨73, Words.le 2 (1 <<< 2)⟩, ⟨76, Words.le 4 (1 <<< 20 ||| 1 <<< 4 ||| 1 <<< 5)⟩, ⟨95, [5]⟩,
    ⟨104, Words.le 8 dsdtAddr⟩, ⟨232, ascii "GOCRKVM "⟩]

def Whp.fadtPatches (dsdtAddr : Nat) : List Patch :=
  [⟨4, Words.le 4 dsdtAddr⟩, ⟨40, Words.le 4 kAcpiPmTimerPort⟩, ⟨55, Words.le 1 4⟩, ⟨72, [0x32]⟩, ⟨73, Words.le 2 (1 <<< 2)⟩,
    ⟨76, Words.le 4 (1 <<< 20 ||| 1 <<< 8 ||| 1 <<< 4 ||| 1 <<< 5)⟩, ⟨95, [5]⟩, ⟨104, Words.le 8 dsdtAddr⟩,
    ⟨172, Words.le 1 1⟩, ⟨173, [32]⟩, ⟨174, [0]⟩, ⟨175, [3]⟩, ⟨176, Words.le 8 kAcpiPmTimerPort⟩, ⟨232, ascii "GOCRKVM "⟩]

theorem fadt_header : putAt (zeros 276) 0 (buildSdtHeader (ascii "FACP") 276 6 (ascii "GCFADT01")) =
    buildSdtHeader (ascii "FACP") 276 6 (ascii "GCFADT01") ++ zeros 240 := by decide +kernel

/-- A table whose body is patched over zeros. --/
theorem finalizeSdt_putAll {ps : List Patch} (len : UInt32) (hsig : sig.length = 4) (hid : tableId.length = 8)
    (hps : Patch.Ordered n 0 ps) (hlen : len = UInt32.ofNat (36 + n)) :
    finalizeSdt (Fields.putAll (buildSdtHeader sig len rev tableId ++ zeros n) (ps.map (Patch.shift 36))) =
      sdt sig rev tableId (Fields.putAll (zeros n) ps) := by
  have hlength := length_putAll hps
  have hheader : (buildSdtHeader sig len rev tableId).length = 36 := by
    simp only [buildSdtHeader, List.length_append, List.length_take, Words.length_le, List.length_cons, List.length_nil, hsig,
      hid]
    rfl
  rw [Fields.putAll_append hheader, sdt, hlength, hlen]

theorem Kvm.fadtPatches_ordered {dsdtAddr : Nat} : Patch.Ordered 240 0 (fadtPatches dsdtAddr) := by
  simp only [fadtPatches, Patch.Ordered, Words.length_le]
  decide

theorem Whp.fadtPatches_ordered {dsdtAddr : Nat} : Patch.Ordered 240 0 (fadtPatches dsdtAddr) := by
  simp only [fadtPatches, Patch.Ordered, Words.length_le]
  decide

theorem Kvm.buildFadt_eq (dsdtAddr : Nat) : buildFadt dsdtAddr =
    sdt (ascii "FACP") 6 (ascii "GCFADT01") (Fields.putAll (zeros 240) (fadtPatches dsdtAddr)) := by
  rw [← finalizeSdt_putAll 276 (by decide) (by decide) fadtPatches_ordered (by decide), ← fadt_header]
  rfl

theorem Whp.buildFadt_eq (dsdtAddr : Nat) : buildFadt dsdtAddr =
    sdt (ascii "FACP") 6 (ascii "GCFADT01") (Fields.putAll (zeros 240) (fadtPatches dsdtAddr)) := by
  rw [← finalizeSdt_putAll 276 (by decide) (by decide) fadtPatches_ordered (by decide), ← fadt_header]
  rfl

/-- A word that is written over zeros. --/
theorem word_putAll_zeros {ps : List Patch} {off k v : Nat} (hp : ⟨off, Words.le k v⟩ ∈ ps) (h : Patch.Ordered n 0 ps)
    (hv : v < 256 ^ k) : word (Fields.putAll (zeros n) ps) off k = v :=
  Fields.word_putAll hp (by rwa [zeros, List.length_replicate]) hv

/-- A word that is not written. --/
theorem word_zeros {ps : List Patch} {off k : Nat} (h : Patch.Ordered n 0 ps) (hin : off + k ≤ n)
    (hapart : ∀ q ∈ ps, q.off + q.bytes.length ≤ off ∨ off + k ≤ q.off) : word (Fields.putAll (zeros n) ps) off k = 0 := by
  have hzeros : (zeros n).length = n := List.length_replicate
  have hall : ∀ k, Words.le k 0 = List.replicate k 0 := by
    intro k
    induction k with
    | zero => rfl
    | succ k ih =>
      rw [Words.le, Nat.zero_div, ih]
      rfl
  refine Fields.word_eq ?_ (Nat.pow_pos (by decide))
  rw [Fields.field_putAll_apart (by rwa [hzeros]) (by rwa [hzeros]) hapart, field, zeros, List.drop_replicate,
    List.take_replicate, Nat.min_eq_left (by omega), hall]

theorem Kvm.fadt_spec {dsdtAddr : Nat} (h : dsdtAddr < 2 ^ 32) :
    SystemTables.devicesAddress (Fields.putAll (zeros 240) (fadtPatches dsdtAddr)) = some dsdtAddr ∧
      SystemTables.timerPort (Fields.putAll (zeros 240) (fadtPatches dsdtAddr)) = none := by
  have hshort : word (Fields.putAll (zeros 240) (fadtPatches dsdtAddr)) 4 4 = dsdtAddr :=
    word_putAll_zeros (by simp [fadtPatches]) fadtPatches_ordered (by omega)
  have hlong : word (Fields.putAll (zeros 240) (fadtPatches dsdtAddr)) 104 8 = dsdtAddr :=
    word_putAll_zeros (by simp [fadtPatches]) fadtPatches_ordered (by omega)
  have hlength : word (Fields.putAll (zeros 240) (fadtPatches dsdtAddr)) 55 1 = 0 := by
    refine word_zeros fadtPatches_ordered (by decide) ?_
    simp only [fadtPatches, List.forall_mem_cons, Words.length_le]
    simp
  rw [SystemTables.devicesAddress, SystemTables.timerPort, hshort, hlong, if_pos rfl, hlength,
    if_neg fun hc => absurd hc.1 (by decide)]
  exact ⟨rfl, rfl⟩

theorem Whp.fadt_spec {dsdtAddr : Nat} (h : dsdtAddr < 2 ^ 32) :
    SystemTables.devicesAddress (Fields.putAll (zeros 240) (fadtPatches dsdtAddr)) = some dsdtAddr ∧
      SystemTables.timerPort (Fields.putAll (zeros 240) (fadtPatches dsdtAddr)) = some kAcpiPmTimerPort := by
  have hword : ∀ {off k v}, ⟨off, Words.le k v⟩ ∈ fadtPatches dsdtAddr → v < 256 ^ k →
      word (Fields.putAll (zeros 240) (fadtPatches dsdtAddr)) off k = v := fun hp hv =>
    word_putAll_zeros hp fadtPatches_ordered hv
  have hshort : word (Fields.putAll (zeros 240) (fadtPatches dsdtAddr)) 4 4 = dsdtAddr :=
    hword (by simp [fadtPatches]) (by omega)
  have hlong : word (Fields.putAll (zeros 240) (fadtPatches dsdtAddr)) 104 8 = dsdtAddr :=
    hword (by simp [fadtPatches]) (by omega)
  have hlength : word (Fields.putAll (zeros 240) (fadtPatches dsdtAddr)) 55 1 = 4 :=
    hword (by simp [fadtPatches]) (by decide)
  have hspace : word (Fields.putAll (zeros 240) (fadtPatches dsdtAddr)) 172 1 = 1 :=
    hword (by simp [fadtPatches]) (by decide)
  have hport : word (Fields.putAll (zeros 240) (fadtPatches dsdtAddr)) 40 4 = kAcpiPmTimerPort :=
    hword (by simp [fadtPatches]) (by decide)
  have hport' : word (Fields.putAll (zeros 240) (fadtPatches dsdtAddr)) 176 8 = kAcpiPmTimerPort :=
    hword (by simp [fadtPatches]) (by decide)
  rw [SystemTables.devicesAddress, SystemTables.timerPort, hshort, hlong, if_pos rfl, hlength, hspace, hport, hport',
    if_pos ⟨rfl, rfl, rfl⟩]
  exact ⟨rfl, rfl⟩

/-! ### The event timers -/

theorem Whp.hpet_spec : ∃ body, buildHpetTable = sdt (ascii "HPET") 1 (ascii "GCHPET01") body ∧ body.length = 20 ∧
    SystemTables.eventTimers body = some ⟨0x8086A201, hpetBase.toNat⟩ := by
  refine ⟨buildHpetTable.drop 36, ?_, ?_, ?_⟩
  all_goals decide +kernel

/-! ### Lists of tables -/

theorem pointers_pair (k a b : Nat) (hk : k = 4 ∨ k = 8) : pointers k [a, b] = [a, b].flatMap (Words.le k) := by
  rcases hk with rfl | rfl
  all_goals rfl

theorem pointers_triple (k a b c : Nat) (hk : k = 4 ∨ k = 8) : pointers k [a, b, c] = [a, b, c].flatMap (Words.le k) := by
  rcases hk with rfl | rfl
  all_goals rfl

/-! ### Processors -/

theorem putAt_zeros {bytes : Bytes} {k m : Nat} (hk : front.length = k) (hm : bytes.length + m = n) :
    putAt (front ++ zeros n) k bytes = front ++ bytes ++ zeros m := by
  subst hm
  have hput : putAt (front ++ zeros (bytes.length + m)) (k + 0) bytes = front ++ putAt (zeros (bytes.length + m)) 0 bytes :=
    Fields.putAt_append hk
  rw [Nat.add_zero] at hput
  rw [hput, putAt, List.take_zero, List.nil_append, Nat.zero_add, zeros, List.drop_replicate, Nat.add_sub_cancel_left,
    List.append_assoc]
  rfl

/-- The entry of a processor. --/
def processorEntry (i : Nat) : Bytes := [0, 8, UInt8.ofNat i, UInt8.ofNat i] ++ Words.le 4 1

theorem putProcessors_eq {k cpus : Nat} (hk : front.length = k) :
    putProcessors (front ++ zeros (cpus * 8)) k cpus = front ++ (List.range cpus).flatMap processorEntry := by
  have hloop : ∀ c m : Nat, (List.range c).foldl (fun (s : Bytes × Nat) i =>
      let body := putAt s.1 s.2 [0, 8, UInt8.ofNat i, UInt8.ofNat i]
      (putAt body (s.2 + 4) (Words.le 4 1), s.2 + 8)) (front ++ zeros ((c + m) * 8), k) =
        (front ++ (List.range c).flatMap processorEntry ++ zeros (m * 8), k + c * 8) := by
    intro c
    induction c with
    | zero =>
      intro m
      simp
    | succ c ih =>
      intro m
      have hlength : (front ++ (List.range c).flatMap processorEntry).length = k + c * 8 := by
        rw [List.length_append, hk, List.length_flatMap]
        simp [processorEntry]
      have hlater : (front ++ (List.range c).flatMap processorEntry ++ [0, 8, UInt8.ofNat c, UInt8.ofNat c]).length =
          k + c * 8 + 4 := by
        rw [List.length_append, hlength]
        rfl
      rw [List.range_succ, List.foldl_append, show c + 1 + m = c + (m + 1) by omega, ih, List.foldl_cons, List.foldl_nil]
      dsimp only
      rw [putAt_zeros (m := 4 + m * 8) hlength (by simp; omega), putAt_zeros (m := m * 8) hlater (by simp)]
      have hnext : k + c * 8 + 8 = k + (c + 1) * 8 := by omega
      simp only [hnext, List.flatMap_append, List.flatMap_singleton, processorEntry, List.append_assoc]
  have hall := hloop cpus 0
  rw [Nat.add_zero, Nat.zero_mul] at hall
  rw [putProcessors, hall]
  simp [zeros]

theorem zeros_add (m n : Nat) : zeros (m + n) = zeros m ++ zeros n := List.replicate_add ..

def ioApicEntry : Bytes :=
  Words.le 1 1 ++ (Words.le 1 12 ++ (Words.le 1 0 ++ (Words.le 1 0 ++ (Words.le 4 0xFEC00000 ++ Words.le 4 0))))

def overrideEntry : Bytes :=
  Words.le 1 2 ++ (Words.le 1 10 ++ (Words.le 1 0 ++ (Words.le 1 0 ++ (Words.le 4 Whp.kPitIoApicPin ++ Words.le 2 0))))

/-- What `BuildMadt` puts behind the header. --/
def Kvm.madtBody (cpus : Nat) : Bytes :=
  Words.le 4 0xFEE00000 ++ (Words.le 4 0 ++ (ioApicEntry ++ (List.range cpus).flatMap processorEntry))

def Whp.madtBody (cpus : Nat) : Bytes :=
  Words.le 4 0xFEE00000 ++ (Words.le 4 1 ++ (ioApicEntry ++ (overrideEntry ++ (List.range cpus).flatMap processorEntry)))

theorem Kvm.buildMadt_eq (cpus : Nat) : buildMadt cpus = sdt (ascii "APIC") 6 (ascii "GCMADT01") (madtBody cpus) := by
  have hfront : putAt (putAt (putAt (zeros (8 + 12)) 0 (Words.le 4 0xFEE00000)) 8 [1, 12]) 12 (Words.le 4 0xFEC00000) =
      Words.le 4 0xFEE00000 ++ (Words.le 4 0 ++ ioApicEntry) := by decide +kernel
  rw [buildMadt, zeros_add, Fields.putAt_append_left (by decide), Fields.putAt_append_left (by decide),
    Fields.putAt_append_left (by decide), hfront, putProcessors_eq (by decide), madtBody, List.append_assoc, List.append_assoc]

theorem Whp.buildMadt_eq (cpus : Nat) : buildMadt cpus = sdt (ascii "APIC") 6 (ascii "GCMADT01") (madtBody cpus) := by
  have hfront : putAt (putAt (putAt (putAt (putAt (putAt (putAt (zeros (8 + 12 + 10)) 0 (Words.le 4 0xFEE00000)) 4
      (Words.le 4 1)) 8 [1, 12]) 12 (Words.le 4 0xFEC00000)) 20 [2, 10, 0, 0]) 24 (Words.le 4 kPitIoApicPin)) 28
      (Words.le 2 0) = Words.le 4 0xFEE00000 ++ (Words.le 4 1 ++ (ioApicEntry ++ overrideEntry)) := by decide +kernel
  rw [buildMadt, zeros_add, Fields.putAt_append_left (by decide), Fields.putAt_append_left (by decide),
    Fields.putAt_append_left (by decide), Fields.putAt_append_left (by decide), Fields.putAt_append_left (by decide),
    Fields.putAt_append_left (by decide), Fields.putAt_append_left (by decide), hfront, putProcessors_eq (by decide), madtBody]
  simp only [List.append_assoc]

def processors (cpus : Nat) : List Controller := (List.range cpus).map fun i => .processor i i true

theorem reads_processorEntry {i : Nat} (hi : i < 256) :
    Reads SystemTables.controller (processorEntry i) (.processor i i true) :=
  SystemTables.reads_processor hi hi (by decide)

theorem reads_ioApicEntry : Reads SystemTables.controller ioApicEntry (.ioApic 0 0xFEC00000 0) :=
  SystemTables.reads_ioApic (by decide) (by decide) (by decide) (by decide)

theorem reads_overrideEntry : Reads SystemTables.controller overrideEntry (.override 0 Whp.kPitIoApicPin 0) :=
  SystemTables.reads_override (by decide) (by decide) (by decide)

theorem madt_run {cpus : Nat} (flags : Nat) (hcpus : cpus ≤ 256) (hflags : flags < 2 ^ 32) (firsts : List (Bytes × Controller))
    (h : ∀ x ∈ firsts, Reads SystemTables.controller x.1 x.2 ∧ x.1 ≠ []) :
    run SystemTables.interruptControllers (Words.le 4 0xFEE00000 ++ (Words.le 4 flags ++ ((firsts.map Prod.fst).flatten ++
      (List.range cpus).flatMap processorEntry))) = some (0xFEE00000, firsts.map Prod.snd ++ processors cpus) := by
  have hall : ∀ x ∈ firsts ++ (List.range cpus).map fun i => (processorEntry i, Controller.processor i i true),
      Reads SystemTables.controller x.1 x.2 ∧ x.1 ≠ [] := by
    refine List.forall_mem_append.mpr ⟨h, fun x hx => ?_⟩
    obtain ⟨i, hi, rfl⟩ := List.mem_map.mp hx
    exact ⟨reads_processorEntry (by have := List.mem_range.mp hi; omega), List.cons_ne_nil _ _⟩
  have hrun := SystemTables.run_interruptControllers 0xFEE00000 (by decide) hflags _ hall
  simpa [List.flatMap_def, processors, Function.comp_def] using hrun

theorem Kvm.madt_spec {cpus : Nat} (hcpus : cpus ≤ 256) : run SystemTables.interruptControllers (madtBody cpus) =
    some (0xFEE00000, [.ioApic 0 0xFEC00000 0] ++ processors cpus) := by
  have hrun := madt_run 0 hcpus (by decide) [(ioApicEntry, .ioApic 0 0xFEC00000 0)]
    (List.forall_mem_singleton.mpr ⟨reads_ioApicEntry, List.cons_ne_nil _ _⟩)
  simpa [madtBody] using hrun

theorem Whp.madt_spec {cpus : Nat} (hcpus : cpus ≤ 256) : run SystemTables.interruptControllers (madtBody cpus) =
    some (0xFEE00000, [.ioApic 0 0xFEC00000 0, .override 0 kPitIoApicPin 0] ++ processors cpus) := by
  have hrun := madt_run 1 hcpus (by decide)
    [(ioApicEntry, .ioApic 0 0xFEC00000 0), (overrideEntry, .override 0 Whp.kPitIoApicPin 0)]
    (List.forall_mem_cons.mpr ⟨⟨reads_ioApicEntry, List.cons_ne_nil _ _⟩,
      List.forall_mem_singleton.mpr ⟨reads_overrideEntry, List.cons_ne_nil _ _⟩⟩)
  simpa [madtBody] using hrun

/-! ### The root pointer -/

def rsdpSum (rsdtAddr : Nat) : UInt8 :=
  ~~~tableSum (ascii "RSD PTR " ++ 0 :: (ascii "GOCRKR" ++ 2 :: Words.le 4 rsdtAddr)) + 1

/-- The first version of the root pointer, with its checksum. --/
def rsdpFirst (rsdtAddr : Nat) : Bytes :=
  ascii "RSD PTR " ++ rsdpSum rsdtAddr :: (ascii "GOCRKR" ++ 2 :: Words.le 4 rsdtAddr)

/-- The root pointer up to the second checksum. --/
def rsdpFront (rsdtAddr xsdtAddr : Nat) : Bytes := rsdpFirst rsdtAddr ++ (Words.le 4 36 ++ Words.le 8 xsdtAddr)

theorem buildRsdp_eq (rsdtAddr xsdtAddr : Nat) : buildRsdp rsdtAddr xsdtAddr = rsdpFront rsdtAddr xsdtAddr ++
    (~~~tableSum (rsdpFront rsdtAddr xsdtAddr ++ (0 :: [0, 0, 0])) + 1) :: [0, 0, 0] := rfl

theorem length_buildRsdp (rsdtAddr xsdtAddr : Nat) : (buildRsdp rsdtAddr xsdtAddr).length = 36 := rfl

theorem rsdp_spec {rsdtAddr xsdtAddr : Nat} (hrsdt : rsdtAddr < 2 ^ 32) (hxsdt : xsdtAddr < 2 ^ 64) :
    SystemTables.rootPointer (buildRsdp rsdtAddr xsdtAddr) = some ⟨rsdtAddr, xsdtAddr⟩ := by
  have hbytes := buildRsdp_eq rsdtAddr xsdtAddr
  have hfirst : Fields.sum ((buildRsdp rsdtAddr xsdtAddr).take 20) % 256 = 0 := by
    have htake : (buildRsdp rsdtAddr xsdtAddr).take 20 = rsdpFirst rsdtAddr := rfl
    rw [htake]
    exact sum_checksum (ascii "RSD PTR ") (ascii "GOCRKR" ++ 2 :: Words.le 4 rsdtAddr)
  have hall : Fields.sum (buildRsdp rsdtAddr xsdtAddr) % 256 = 0 := by
    rw [hbytes]
    exact sum_checksum (rsdpFront rsdtAddr xsdtAddr) [0, 0, 0]
  have hshort : word (buildRsdp rsdtAddr xsdtAddr) 16 4 = rsdtAddr := Fields.word_eq rfl (by omega)
  have hlong : word (buildRsdp rsdtAddr xsdtAddr) 24 8 = xsdtAddr := Fields.word_eq rfl (by omega)
  have hversion : word (buildRsdp rsdtAddr xsdtAddr) 15 1 = 2 := rfl
  have hlength : word (buildRsdp rsdtAddr xsdtAddr) 20 4 = 36 := rfl
  rw [SystemTables.rootPointer, hversion, hlength, hshort, hlong, length_buildRsdp,
    if_pos ⟨rfl, hfirst, Nat.le_refl 2, rfl, hall⟩]

/-! ### Where the tables are put -/

theorem testBit_not64 {v i : Nat} (hv : v < 2 ^ 64) : (not64 v).testBit i = (decide (i < 64) && !v.testBit i) :=
  Nat.testBit_two_pow_sub_succ hv i

/-- Down to a multiple of a power of two. --/
theorem and_not64 {k : Nat} (hn : n < 2 ^ 64) (hk : k ≤ 64) : n &&& not64 (2 ^ k - 1) = n / 2 ^ k * 2 ^ k := by
  have hpow : 2 ^ k ≤ 2 ^ 64 := Nat.pow_le_pow_right (by decide) hk
  have hpos := Nat.two_pow_pos k
  refine Nat.eq_of_testBit_eq fun i => ?_
  rw [Nat.testBit_and, testBit_not64 (by omega), Nat.testBit_two_pow_sub_one, Nat.testBit_mul_two_pow, Nat.testBit_div_two_pow]
  rcases Nat.lt_or_ge i k with hlow | hhigh
  · simp [hlow, Nat.not_le_of_lt hlow]
  · rcases Nat.lt_or_ge i 64 with hin | hout
    · simp [hhigh, hin, Nat.not_lt_of_le hhigh]
    · have hzero : n.testBit i = false :=
        Nat.testBit_lt_two_pow (Nat.lt_of_lt_of_le hn (Nat.pow_le_pow_right (by decide) hout))
      simp [hzero, hhigh]

theorem alignUp_eight {v : Nat} (hv : v < 2 ^ 32) : alignUp v 8 = (v + 7) / 8 * 8 := by
  have hsum : u64 (v + 8 - 1) = v + 7 := u64_of_lt (by omega)
  have hmask : not64 (8 - 1) = not64 (2 ^ 3 - 1) := rfl
  rw [alignUp, hsum, hmask, and_not64 (by omega) (by decide)]
  rfl

section
variable {b : Backend} {mem : ByteStore} {cursor : Nat}

/-- A table that fits is put at the next multiple of eight. --/
theorem writeTable_eq (hcursor : cursor + 7 + table.length < rsdpAddr) (hmem : rsdpAddr ≤ mem.size) :
    ∃ addr, cursor ≤ addr ∧ addr ≤ cursor + 7 ∧
      writeTable b table (mem, cursor) = .ok (addr, (mem.patch [⟨addr, table⟩], addr + table.length)) := by
  have hsmall : rsdpAddr = 0xE0000 := rfl
  have haddr := alignUp_eight (v := cursor) (by omega)
  refine ⟨alignUp cursor 8, by omega, by omega, ?_⟩
  have hend : u64 (alignUp cursor 8 + table.length) = alignUp cursor 8 + table.length := u64_of_lt (by omega)
  have hcheck : Checked.check (decide (alignUp cursor 8 + table.length < rsdpAddr)) "ACPI tables overflow low memory" =
      .ok () := by
    rw [Checked.check, if_pos (decide_eq_true (by omega))]
  have hrange : Backend.whp.checkRange mem.size (alignUp cursor 8) table.length "ACPI table" = .ok () :=
    Backend.checkRange_of_le (by omega)
  have hput : ∀ b : Backend, b.put mem (alignUp cursor 8) table.length table = .ok (mem.patch [⟨alignUp cursor 8, table⟩]) :=
    fun b => Backend.put_eq (by omega) (Nat.le_refl _)
  cases b with
  | whp => simp [writeTable, hrange, hput, hend, hcheck, bind, Except.bind, pure, Except.pure, lift, Except.mapError]
  | kvm => simp [writeTable, hput, hend, hcheck, bind, Except.bind, pure, Except.pure]
  | hvf => simp [writeTable, hput, hend, hcheck, bind, Except.bind, pure, Except.pure]

/-- The next table goes behind those that are there. --/
theorem writeTable_next {lo : Nat} {ps : List Patch} (b : Backend) (table : Bytes) (mem : ByteStore)
    (hps : Patch.Ordered cursor lo ps) (hcursor : cursor + 7 + table.length < rsdpAddr) (hmem : rsdpAddr ≤ mem.size) :
    ∃ addr, addr ≤ cursor + 7 ∧ Patch.Ordered (addr + table.length) lo (ps ++ [⟨addr, table⟩]) ∧
      writeTable b table (mem.patch ps, cursor) =
        .ok (addr, (mem.patch (ps ++ [⟨addr, table⟩]), addr + table.length)) := by
  have hmem' : rsdpAddr ≤ (mem.patch ps).size := by rwa [ByteStore.size_patch]
  obtain ⟨addr, hlo, hhi, hwrite⟩ := @writeTable_eq table b _ _ hcursor hmem'
  refine ⟨addr, hhi, hps.append ⟨hlo, Nat.le_refl _⟩, ?_⟩
  rw [hwrite, ByteStore.patch_append]

/-- The root pointer goes behind all of them. --/
theorem put_rsdp {lo : Nat} {ps : List Patch} (b : Backend) (mem : ByteStore) (rsdtAddr xsdtAddr : Nat)
    (hps : Patch.Ordered cursor lo ps) (hcursor : cursor ≤ rsdpAddr) (hmem : rsdpAddr + 36 ≤ mem.size) :
    Patch.Ordered (rsdpAddr + 36) lo (ps ++ [⟨rsdpAddr, buildRsdp rsdtAddr xsdtAddr⟩]) ∧
      b.put (mem.patch ps) rsdpAddr (buildRsdp rsdtAddr xsdtAddr).length (buildRsdp rsdtAddr xsdtAddr) =
        .ok (mem.patch (ps ++ [⟨rsdpAddr, buildRsdp rsdtAddr xsdtAddr⟩])) := by
  refine ⟨hps.append ⟨hcursor, Nat.le_of_eq (by rw [length_buildRsdp])⟩, ?_⟩
  have hfit : rsdpAddr + (buildRsdp rsdtAddr xsdtAddr).length ≤ (mem.patch ps).size := by
    rwa [length_buildRsdp, ByteStore.size_patch]
  rw [Backend.put_eq hfit (Nat.le_refl _), ByteStore.patch_append]

end
end

/-! ### All tables -/

section
variable {mem m : ByteStore} {dsdt body : Bytes} {cpus : Nat} {networkEnabled : Bool} {diskCount : UInt32}

/-- What `CreateAcpiTables` puts where. --/
def Kvm.tablePatches (dsdt : Bytes) (cpus dsdtAddr fadtAddr madtAddr rsdtAddr xsdtAddr : Nat) : List Patch :=
  [⟨dsdtAddr, dsdt⟩, ⟨fadtAddr, buildFadt dsdtAddr⟩, ⟨madtAddr, buildMadt cpus⟩, ⟨rsdtAddr, buildRsdt [fadtAddr, madtAddr]⟩,
    ⟨xsdtAddr, buildXsdt [fadtAddr, madtAddr]⟩, ⟨rsdpAddr, buildRsdp rsdtAddr xsdtAddr⟩]

def Whp.tablePatches (dsdt : Bytes) (cpus dsdtAddr fadtAddr madtAddr hpetAddr rsdtAddr xsdtAddr : Nat) : List Patch :=
  [⟨dsdtAddr, dsdt⟩, ⟨fadtAddr, buildFadt dsdtAddr⟩, ⟨madtAddr, buildMadt cpus⟩, ⟨hpetAddr, buildHpetTable⟩,
    ⟨rsdtAddr, buildRsdt [fadtAddr, madtAddr, hpetAddr]⟩, ⟨xsdtAddr, buildXsdt [fadtAddr, madtAddr, hpetAddr]⟩,
    ⟨rsdpAddr, buildRsdp rsdtAddr xsdtAddr⟩]

theorem length_pointers {n : Nat} {addrs : List Nat} (h : pointers n addrs = addrs.flatMap (Words.le n)) :
    (pointers n addrs).length = n * addrs.length := by
  rw [h, List.length_flatMap]
  simp [Words.length_le, Nat.mul_comm]

theorem length_sdt {sig tableId : Bytes} {rev : UInt8} (hsig : sig.length = 4) (hid : tableId.length = 8)
    (hbody : body.length < 2 ^ 32 - 36) : (sdt sig rev tableId body).length = 36 + body.length :=
  (table_sdt hsig hid hbody).1

theorem length_processors : ((List.range cpus).flatMap processorEntry).length = cpus * 8 := by
  rw [List.length_flatMap]
  simp [processorEntry]

theorem Kvm.length_madtBody : (madtBody cpus).length = 20 + cpus * 8 := by
  simp only [madtBody, List.length_append, Words.length_le, length_processors, ioApicEntry]
  omega

theorem Whp.length_madtBody : (madtBody cpus).length = 30 + cpus * 8 := by
  simp only [madtBody, List.length_append, Words.length_le, length_processors, ioApicEntry, overrideEntry]
  omega

theorem Kvm.length_fadt (dsdtAddr : Nat) : (buildFadt dsdtAddr).length = 276 := by
  have hbody : (Fields.putAll (zeros 240) (fadtPatches dsdtAddr)).length = 240 := length_putAll fadtPatches_ordered
  rw [buildFadt_eq, length_sdt rfl rfl (by rw [hbody]; decide), hbody]

theorem Whp.length_fadt (dsdtAddr : Nat) : (buildFadt dsdtAddr).length = 276 := by
  have hbody : (Fields.putAll (zeros 240) (fadtPatches dsdtAddr)).length = 240 := length_putAll fadtPatches_ordered
  rw [buildFadt_eq, length_sdt rfl rfl (by rw [hbody]; decide), hbody]

theorem length_rsdt {addrs : List Nat} (h : pointers 4 addrs = addrs.flatMap (Words.le 4)) (hfew : addrs.length ≤ 3) :
    (buildRsdt addrs).length = 36 + 4 * addrs.length := by
  have hbody := length_pointers h
  rw [buildRsdt, length_sdt rfl rfl (by omega), hbody]

theorem length_xsdt {addrs : List Nat} (h : pointers 8 addrs = addrs.flatMap (Words.le 8)) (hfew : addrs.length ≤ 3) :
    (buildXsdt addrs).length = 36 + 8 * addrs.length := by
  have hbody := length_pointers h
  rw [buildXsdt, length_sdt rfl rfl (by omega), hbody]

theorem Kvm.createAcpiTables_eq (h : buildDsdtTable networkEnabled diskCount = .ok dsdt) (hdsdt : dsdt.length < 2 ^ 13)
    (hcpus : cpus ≤ 256) (hmem : rsdpAddr + 36 ≤ mem.size) : ∃ dsdtAddr fadtAddr madtAddr rsdtAddr xsdtAddr,
      Patch.Ordered (rsdpAddr + 36) firstTableAddr (tablePatches dsdt cpus dsdtAddr fadtAddr madtAddr rsdtAddr xsdtAddr) ∧
      createAcpiTables mem networkEnabled cpus diskCount =
        .ok (rsdpAddr, mem.patch (tablePatches dsdt cpus dsdtAddr fadtAddr madtAddr rsdtAddr xsdtAddr)) := by
  have hrsdp : rsdpAddr = 0xE0000 := rfl
  have hfirst : firstTableAddr = 0xA0000 := rfl
  have hnone : Patch.Ordered firstTableAddr firstTableAddr [] := Nat.le_refl _
  have hmadt : (buildMadt cpus).length = 56 + cpus * 8 := by
    rw [buildMadt_eq, length_sdt rfl rfl (by rw [length_madtBody]; omega), length_madtBody]
    omega
  obtain ⟨dsdtAddr, hle, hps, hdsdt⟩ := writeTable_next .kvm dsdt mem hnone (by omega) (by omega)
  have hlength := length_fadt dsdtAddr
  obtain ⟨fadtAddr, hle', hps, hfadt⟩ := writeTable_next .kvm (buildFadt dsdtAddr) mem hps (by omega) (by omega)
  obtain ⟨madtAddr, hle'', hps, hmadt⟩ := writeTable_next .kvm (buildMadt cpus) mem hps (by omega) (by omega)
  have hshort : (buildRsdt [fadtAddr, madtAddr]).length = 44 := length_rsdt (pointers_pair _ _ _ (Or.inl rfl)) (by simp)
  have hlong : (buildXsdt [fadtAddr, madtAddr]).length = 52 := length_xsdt (pointers_pair _ _ _ (Or.inr rfl)) (by simp)
  obtain ⟨rsdtAddr, hler, hps, hrsdt⟩ := writeTable_next .kvm (buildRsdt [fadtAddr, madtAddr]) mem hps (by omega) (by omega)
  obtain ⟨xsdtAddr, hlex, hps, hxsdt⟩ := writeTable_next .kvm (buildXsdt [fadtAddr, madtAddr]) mem hps (by omega) (by omega)
  obtain ⟨hall, hput⟩ := put_rsdp .kvm mem rsdtAddr xsdtAddr hps (by omega) hmem
  refine ⟨dsdtAddr, fadtAddr, madtAddr, rsdtAddr, xsdtAddr, hall, ?_⟩
  rw [createAcpiTables, h]
  simp only [ByteStore.patch_nil] at hdsdt
  simp only [lift, Except.mapError, bind, Except.bind, hdsdt, hfadt, hmadt, hrsdt, hxsdt, hput]
  rfl

theorem Whp.createAcpiTables_eq (h : buildDsdtTable networkEnabled diskCount = .ok dsdt) (hdsdt : dsdt.length < 2 ^ 13)
    (hcpus : cpus ≤ 256) (hmem : rsdpAddr + 36 ≤ mem.size) : ∃ dsdtAddr fadtAddr madtAddr hpetAddr rsdtAddr xsdtAddr,
      Patch.Ordered (rsdpAddr + 36) firstTableAddr
        (tablePatches dsdt cpus dsdtAddr fadtAddr madtAddr hpetAddr rsdtAddr xsdtAddr) ∧
      createAcpiTables mem networkEnabled cpus diskCount =
        .ok (rsdpAddr, mem.patch (tablePatches dsdt cpus dsdtAddr fadtAddr madtAddr hpetAddr rsdtAddr xsdtAddr)) := by
  have hrsdp : rsdpAddr = 0xE0000 := rfl
  have hfirst : firstTableAddr = 0xA0000 := rfl
  have hnone : Patch.Ordered firstTableAddr firstTableAddr [] := Nat.le_refl _
  have hmadt : (buildMadt cpus).length = 66 + cpus * 8 := by
    rw [buildMadt_eq, length_sdt rfl rfl (by rw [length_madtBody]; omega), length_madtBody]
    omega
  have hhpet : buildHpetTable.length = 56 := by
    obtain ⟨body, heq, hbody, -⟩ := hpet_spec
    rw [heq, length_sdt rfl rfl (by omega), hbody]
  obtain ⟨dsdtAddr, hle, hps, hdsdt⟩ := writeTable_next .whp dsdt mem hnone (by omega) (by omega)
  have hlength := length_fadt dsdtAddr
  obtain ⟨fadtAddr, hle', hps, hfadt⟩ := writeTable_next .whp (buildFadt dsdtAddr) mem hps (by omega) (by omega)
  obtain ⟨madtAddr, hle'', hps, hmadt⟩ := writeTable_next .whp (buildMadt cpus) mem hps (by omega) (by omega)
  obtain ⟨hpetAddr, hleh, hps, hhpet⟩ := writeTable_next .whp buildHpetTable mem hps (by omega) (by omega)
  have hshort : (buildRsdt [fadtAddr, madtAddr, hpetAddr]).length = 48 :=
    length_rsdt (pointers_triple _ _ _ _ (Or.inl rfl)) (by simp)
  have hlong : (buildXsdt [fadtAddr, madtAddr, hpetAddr]).length = 60 :=
    length_xsdt (pointers_triple _ _ _ _ (Or.inr rfl)) (by simp)
  obtain ⟨rsdtAddr, hler, hps, hrsdt⟩ :=
    writeTable_next .whp (buildRsdt [fadtAddr, madtAddr, hpetAddr]) mem hps (by omega) (by omega)
  obtain ⟨xsdtAddr, hlex, hps, hxsdt⟩ :=
    writeTable_next .whp (buildXsdt [fadtAddr, madtAddr, hpetAddr]) mem hps (by omega) (by omega)
  obtain ⟨hall, hput⟩ := put_rsdp .whp mem rsdtAddr xsdtAddr hps (by omega) hmem
  have hrange : Backend.whp.checkRange mem.size rsdpAddr (buildRsdp rsdtAddr xsdtAddr).length "RSDP" = .ok () :=
    Backend.checkRange_of_le (by rwa [length_buildRsdp])
  refine ⟨dsdtAddr, fadtAddr, madtAddr, hpetAddr, rsdtAddr, xsdtAddr, hall, ?_⟩
  rw [createAcpiTables, h]
  simp only [ByteStore.patch_nil] at hdsdt
  simp only [lift, Except.mapError, bind, Except.bind, hdsdt, hfadt, hmadt, hhpet, hrsdt, hxsdt, hput,
    ByteStore.size_patch, hrange]
  rfl

/-! ### What the guest finds -/

/-- The bytes at an address. --/
def At (m : ByteStore) (addr : Nat) (table : Bytes) : Prop := m.read addr table.length = table ∧ addr + table.length ≤ m.size

section
variable {sig tableId : Bytes} {rev : UInt8} {addr : Nat} {signature : String}

/-- A table is found where it is. --/
theorem tableAt_sdt (h : At m addr (sdt sig rev tableId body)) (hsig : sig.length = 4) (hid : tableId.length = 8)
    (hbody : body.length < 2 ^ 32 - 36) : SystemTables.tableAt m addr = some ⟨sig, body⟩ :=
  SystemTables.tableAt_eq h.1 h.2 (table_sdt hsig hid hbody).2

theorem bodyAt_sdt (h : At m addr (sdt (ascii signature) rev tableId body)) (hsig : (ascii signature).length = 4)
    (hid : tableId.length = 8) (hbody : body.length < 2 ^ 32 - 36) : SystemTables.bodyAt m signature addr = some body :=
  SystemTables.bodyAt_eq h.1 h.2 (table_sdt hsig hid hbody).2 rfl

theorem rootsAt_rsdp {rsdtAddr xsdtAddr : Nat} (h : At m addr (buildRsdp rsdtAddr xsdtAddr)) (hrsdt : rsdtAddr < 2 ^ 32)
    (hxsdt : xsdtAddr < 2 ^ 32) : SystemTables.rootsAt m addr = some ⟨rsdtAddr, xsdtAddr⟩ :=
  SystemTables.rootsAt_eq h.1 h.2 (by rw [length_buildRsdp]; decide) (rsdp_spec hrsdt (by omega))

/-- Both root tables lead to the same tables. --/
theorem tablesAt_roots {rsdtAddr xsdtAddr : Nat} {addrs : List Nat} (hroot : At m addr (buildRsdp rsdtAddr xsdtAddr))
    (hshort : At m rsdtAddr (buildRsdt addrs)) (hlong : At m xsdtAddr (buildXsdt addrs))
    (hpointers : ∀ k, k = 4 ∨ k = 8 → pointers k addrs = addrs.flatMap (Words.le k)) (hfew : addrs.length ≤ 3)
    (hrsdt : rsdtAddr < 2 ^ 32) (hxsdt : xsdtAddr < 2 ^ 32) (hsmall : ∀ a ∈ addrs, a < 2 ^ 32) :
    SystemTables.tablesAt m addr = addrs.mapM (SystemTables.tableAt m) := by
  have hfour := hpointers 4 (Or.inl rfl)
  have height := hpointers 8 (Or.inr rfl)
  have hlength := length_pointers hfour
  have hlength' := length_pointers height
  refine SystemTables.tablesAt_eq (rootsAt_rsdp hroot hrsdt hxsdt) ?_ ?_ hsmall
  · rw [← hfour]
    exact bodyAt_sdt hshort rfl rfl (by omega)
  · rw [← height]
    exact bodyAt_sdt hlong rfl rfl (by omega)

end

/-- All tables are below 4 GiB. --/
theorem off_lt {ps : List Patch} (h : Patch.Ordered (rsdpAddr + 36) firstTableAddr ps) : ∀ p ∈ ps, p.off < 2 ^ 32 := by
  intro p hp
  have hin := (h.inside hp).2
  have hrsdp : rsdpAddr = 0xE0000 := rfl
  omega

def Kvm.machine (body : Bytes) (cpus : Nat) : Machine :=
  { devices := body, timerPort := none, localAddress := 0xFEE00000,
    controllers := [.ioApic 0 0xFEC00000 0] ++ processors cpus, eventTimers := none }

def Whp.machine (body : Bytes) (cpus : Nat) : Machine :=
  { devices := body, timerPort := some kAcpiPmTimerPort, localAddress := 0xFEE00000,
    controllers := [.ioApic 0 0xFEC00000 0, .override 0 kPitIoApicPin 0] ++ processors cpus,
    eventTimers := some ⟨0x8086A201, hpetBase.toNat⟩ }

theorem Kvm.machine_of_holds {dsdtAddr fadtAddr madtAddr rsdtAddr xsdtAddr : Nat} (hbody : body.length < 2 ^ 12)
    (hcpus : cpus ≤ 256)
    (h : Patch.Ordered (rsdpAddr + 36) firstTableAddr
      (tablePatches (dsdtTable body) cpus dsdtAddr fadtAddr madtAddr rsdtAddr xsdtAddr))
    (hholds : m.Holds (tablePatches (dsdtTable body) cpus dsdtAddr fadtAddr madtAddr rsdtAddr xsdtAddr)) :
    SystemTables.machineAt m rsdpAddr = some (machine body cpus) := by
  have hlow := off_lt h
  simp only [tablePatches, List.forall_mem_cons] at hlow
  obtain ⟨hdsdt, hfadt, hmadt, hrsdt, hxsdt, -⟩ := hlow
  simp only [ByteStore.Holds, tablePatches, List.forall_mem_cons] at hholds
  obtain ⟨hdsdtAt, hfadtAt, hmadtAt, hrsdtAt, hxsdtAt, hrsdpAt, -⟩ := hholds
  have hfixed : (Fields.putAll (zeros 240) (fadtPatches dsdtAddr)).length = 240 := length_putAll fadtPatches_ordered
  have hfadtAt' : SystemTables.tableAt m fadtAddr = some ⟨ascii "FACP", Fields.putAll (zeros 240) (fadtPatches dsdtAddr)⟩ := by
    rw [buildFadt_eq] at hfadtAt
    exact tableAt_sdt hfadtAt rfl rfl (by omega)
  have hmadtAt' : SystemTables.tableAt m madtAddr = some ⟨ascii "APIC", madtBody cpus⟩ := by
    rw [buildMadt_eq] at hmadtAt
    exact tableAt_sdt hmadtAt rfl rfl (by rw [length_madtBody]; omega)
  have hdsdtAt' : SystemTables.bodyAt m "DSDT" dsdtAddr = some body := bodyAt_sdt hdsdtAt rfl rfl (by omega)
  have htables := tablesAt_roots hrsdpAt hrsdtAt hxsdtAt (pointers_pair · fadtAddr madtAddr) (by simp) hrsdt hxsdt
    (List.forall_mem_cons.mpr ⟨hfadt, List.forall_mem_singleton.mpr hmadt⟩)
  obtain ⟨hdevices, htimer⟩ := fadt_spec hdsdt
  simp only [List.mapM_cons, List.mapM_nil, hfadtAt', hmadtAt', Option.bind_eq_bind, Option.bind_some, pure] at htables
  have hfacp : SystemTables.bodyOf [⟨ascii "FACP", Fields.putAll (zeros 240) (fadtPatches dsdtAddr)⟩,
      ⟨ascii "APIC", madtBody cpus⟩] "FACP" = some (Fields.putAll (zeros 240) (fadtPatches dsdtAddr)) := rfl
  have hapic : SystemTables.bodyOf [⟨ascii "FACP", Fields.putAll (zeros 240) (fadtPatches dsdtAddr)⟩,
      ⟨ascii "APIC", madtBody cpus⟩] "APIC" = some (madtBody cpus) := rfl
  have hhpet : SystemTables.bodyOf [⟨ascii "FACP", Fields.putAll (zeros 240) (fadtPatches dsdtAddr)⟩,
      ⟨ascii "APIC", madtBody cpus⟩] "HPET" = none := rfl
  rw [SystemTables.machineAt, htables]
  simp only [Option.bind_eq_bind, Option.bind_some, hfacp, hdevices, hdsdtAt', hapic, madt_spec hcpus, htimer, hhpet]
  rfl

theorem Whp.machine_of_holds {dsdtAddr fadtAddr madtAddr hpetAddr rsdtAddr xsdtAddr : Nat} (hbody : body.length < 2 ^ 12)
    (hcpus : cpus ≤ 256)
    (h : Patch.Ordered (rsdpAddr + 36) firstTableAddr
      (tablePatches (dsdtTable body) cpus dsdtAddr fadtAddr madtAddr hpetAddr rsdtAddr xsdtAddr))
    (hholds : m.Holds (tablePatches (dsdtTable body) cpus dsdtAddr fadtAddr madtAddr hpetAddr rsdtAddr xsdtAddr)) :
    SystemTables.machineAt m rsdpAddr = some (machine body cpus) := by
  have hlow := off_lt h
  simp only [tablePatches, List.forall_mem_cons] at hlow
  obtain ⟨hdsdt, hfadt, hmadt, hhpet, hrsdt, hxsdt, -⟩ := hlow
  simp only [ByteStore.Holds, tablePatches, List.forall_mem_cons] at hholds
  obtain ⟨hdsdtAt, hfadtAt, hmadtAt, hhpetAt, hrsdtAt, hxsdtAt, hrsdpAt, -⟩ := hholds
  have hfixed : (Fields.putAll (zeros 240) (fadtPatches dsdtAddr)).length = 240 := length_putAll fadtPatches_ordered
  have hfadtAt' : SystemTables.tableAt m fadtAddr = some ⟨ascii "FACP", Fields.putAll (zeros 240) (fadtPatches dsdtAddr)⟩ := by
    rw [buildFadt_eq] at hfadtAt
    exact tableAt_sdt hfadtAt rfl rfl (by omega)
  have hmadtAt' : SystemTables.tableAt m madtAddr = some ⟨ascii "APIC", madtBody cpus⟩ := by
    rw [buildMadt_eq] at hmadtAt
    exact tableAt_sdt hmadtAt rfl rfl (by rw [length_madtBody]; omega)
  obtain ⟨timers, hbuild, hlength, htimers⟩ := hpet_spec
  have hhpetAt' : SystemTables.tableAt m hpetAddr = some ⟨ascii "HPET", timers⟩ := by
    rw [hbuild] at hhpetAt
    exact tableAt_sdt hhpetAt rfl rfl (by omega)
  have hdsdtAt' : SystemTables.bodyAt m "DSDT" dsdtAddr = some body := bodyAt_sdt hdsdtAt rfl rfl (by omega)
  have htables := tablesAt_roots hrsdpAt hrsdtAt hxsdtAt (pointers_triple · fadtAddr madtAddr hpetAddr) (by simp) hrsdt hxsdt
    (List.forall_mem_cons.mpr ⟨hfadt, List.forall_mem_cons.mpr ⟨hmadt, List.forall_mem_singleton.mpr hhpet⟩⟩)
  obtain ⟨hdevices, htimer⟩ := fadt_spec hdsdt
  simp only [List.mapM_cons, List.mapM_nil, hfadtAt', hmadtAt', hhpetAt', Option.bind_eq_bind, Option.bind_some, pure]
    at htables
  have hfacp : SystemTables.bodyOf [⟨ascii "FACP", Fields.putAll (zeros 240) (fadtPatches dsdtAddr)⟩,
      ⟨ascii "APIC", madtBody cpus⟩, ⟨ascii "HPET", timers⟩] "FACP" =
        some (Fields.putAll (zeros 240) (fadtPatches dsdtAddr)) := rfl
  have hapic : SystemTables.bodyOf [⟨ascii "FACP", Fields.putAll (zeros 240) (fadtPatches dsdtAddr)⟩,
      ⟨ascii "APIC", madtBody cpus⟩, ⟨ascii "HPET", timers⟩] "APIC" = some (madtBody cpus) := rfl
  have htimersOf : SystemTables.bodyOf [⟨ascii "FACP", Fields.putAll (zeros 240) (fadtPatches dsdtAddr)⟩,
      ⟨ascii "APIC", madtBody cpus⟩, ⟨ascii "HPET", timers⟩] "HPET" = some timers := rfl
  rw [SystemTables.machineAt, htables]
  simp only [Option.bind_eq_bind, Option.bind_some, hfacp, hdevices, hdsdtAt', hapic, madt_spec hcpus, htimer,
    htimersOf, htimers]
  rfl

/-! ### The result -/

/-- The bodies are built if there are pins for all devices; WHP has a pin more for its random numbers, and one that it skips
    without a network. --/
theorem dsdt_some : ∀ disks : Fin 20, ∀ networkEnabled : Bool,
    (0 < disks.val + networkEnabled.toNat ∧ disks.val + networkEnabled.toNat < 20 →
      (Kvm.buildDsdtBody networkEnabled (UInt32.ofNat disks.val)).toOption.isSome = true) ∧
    (disks.val + 2 < 20 → (Whp.buildDsdtBody networkEnabled (UInt32.ofNat disks.val)).toOption.isSome = true) := by
  decide +kernel

theorem exists_body {α : Type} {x : Except String α} (h : x.toOption.isSome = true) : ∃ a, x = .ok a := by
  cases x with
  | error e => cases h
  | ok a => exact ⟨a, rfl⟩

theorem Kvm.dsdt_spec (hdevices : 0 < diskCount.toNat + networkEnabled.toNat ∧ diskCount.toNat + networkEnabled.toNat < 20) :
    ∃ body, buildDsdtTable networkEnabled diskCount = .ok (dsdtTable body) ∧ body.length < 2 ^ 12 ∧
      Aml.read body = some [Aml.kvmDsdt networkEnabled diskCount] := by
  have hlt : diskCount.toNat < 20 := by omega
  have hsome := (dsdt_some ⟨diskCount.toNat, hlt⟩ networkEnabled).1 hdevices
  have hsize := (Aml.dsdt_sizes ⟨diskCount.toNat, hlt⟩ networkEnabled).1
  rw [UInt32.ofNat_toNat] at hsome hsize
  obtain ⟨body, hbody⟩ := exists_body hsome
  rw [hbody] at hsize
  have htable : buildDsdtTable networkEnabled diskCount = .ok (dsdtTable body) := by rw [buildDsdtTable, hbody]; rfl
  have hbytes : body.length < 2 ^ 12 := of_decide_eq_true hsize
  refine ⟨body, htable, hbytes, ?_⟩
  have hread := (Aml.kvm_dsdt_read htable).2.2
  rwa [(Aml.dsdtTable_spec body (by omega)).2.2] at hread

theorem Whp.dsdt_spec (hdevices : diskCount.toNat + 2 < 20) :
    ∃ body, buildDsdtTable networkEnabled diskCount = .ok (dsdtTable body) ∧ body.length < 2 ^ 12 ∧
      Aml.read body = some [Aml.whpDsdt networkEnabled diskCount] := by
  have hlt : diskCount.toNat < 20 := by omega
  have hsome := (dsdt_some ⟨diskCount.toNat, hlt⟩ networkEnabled).2 hdevices
  have hsize := (Aml.dsdt_sizes ⟨diskCount.toNat, hlt⟩ networkEnabled).2
  rw [UInt32.ofNat_toNat] at hsome hsize
  obtain ⟨body, hbody⟩ := exists_body hsome
  rw [hbody] at hsize
  have htable : buildDsdtTable networkEnabled diskCount = .ok (dsdtTable body) := by rw [buildDsdtTable, hbody]; rfl
  have hbytes : body.length < 2 ^ 12 := of_decide_eq_true hsize
  refine ⟨body, htable, hbytes, ?_⟩
  have hread := (Aml.whp_dsdt_read htable).2.2
  rwa [(Aml.dsdtTable_spec body (by omega)).2.2] at hread

theorem length_dsdtTable (hbody : body.length < 2 ^ 12) : (dsdtTable body).length < 2 ^ 13 := by
  have hlength : (dsdtTable body).length = 36 + body.length := length_sdt rfl rfl (by omega)
  omega

theorem inside_fit {ps : List Patch} (h : Patch.Ordered (rsdpAddr + 36) firstTableAddr ps) (hmem : rsdpAddr + 36 ≤ mem.size) :
    ∀ p ∈ ps, p.off + p.bytes.length ≤ mem.size := fun _ hp => Nat.le_trans (h.inside hp).2 hmem

/-- Where the tables are. --/
def Outside (i : Nat) : Prop := i < firstTableAddr ∨ rsdpAddr + 36 ≤ i

theorem agreeOn_tables {ps : List Patch} (h : Patch.Ordered (rsdpAddr + 36) firstTableAddr ps) :
    ByteStore.AgreeOn Outside mem (mem.patch ps) := by
  refine ByteStore.agreeOn_patch fun p hp i hi => ?_
  have hin := h.inside hp
  simp only [Patch.Inside, ByteStore.Within, Outside] at hin hi ⊢
  omega

/-- With a pin for every device and no more processors than a byte can number, `CreateAcpiTables` succeeds. From the root
    pointer the guest then finds the description of every device, the processors and the interrupt controller, and with WHP
    the timers; every table that it reads has its size and its checksum in order. No other byte of the memory changes. --/
theorem guest_tables (mem : ByteStore) (networkEnabled : Bool) (cpus : Nat) (diskCount : UInt32) (hcpus : cpus ≤ 256)
    (hmem : rsdpAddr + 36 ≤ mem.size) :
    (0 < diskCount.toNat + networkEnabled.toNat ∧ diskCount.toNat + networkEnabled.toNat < 20 → ∃ m body,
      Kvm.createAcpiTables mem networkEnabled cpus diskCount = .ok (rsdpAddr, m) ∧
        SystemTables.machineAt m rsdpAddr = some (Kvm.machine body cpus) ∧
        Aml.read body = some [Aml.kvmDsdt networkEnabled diskCount] ∧ ByteStore.AgreeOn Outside mem m) ∧
    (diskCount.toNat + 2 < 20 → ∃ m body,
      Whp.createAcpiTables mem networkEnabled cpus diskCount = .ok (rsdpAddr, m) ∧
        SystemTables.machineAt m rsdpAddr = some (Whp.machine body cpus) ∧
        Aml.read body = some [Aml.whpDsdt networkEnabled diskCount] ∧ ByteStore.AgreeOn Outside mem m) := by
  constructor
  · intro hdevices
    obtain ⟨body, htable, hbytes, hread⟩ := Kvm.dsdt_spec hdevices
    obtain ⟨_, _, _, _, _, hordered, hcreate⟩ := Kvm.createAcpiTables_eq htable (length_dsdtTable hbytes) hcpus hmem
    have hholds := ByteStore.holds_patch hordered.separate (inside_fit hordered hmem)
    exact ⟨_, body, hcreate, Kvm.machine_of_holds hbytes hcpus hordered hholds, hread, agreeOn_tables hordered⟩
  · intro hdevices
    obtain ⟨body, htable, hbytes, hread⟩ := Whp.dsdt_spec hdevices
    obtain ⟨_, _, _, _, _, _, hordered, hcreate⟩ := Whp.createAcpiTables_eq htable (length_dsdtTable hbytes) hcpus hmem
    have hholds := ByteStore.holds_patch hordered.separate (inside_fit hordered hmem)
    exact ⟨_, body, hcreate, Whp.machine_of_holds hbytes hcpus hordered hholds, hread, agreeOn_tables hordered⟩

/-- Two processors, a disk and a network, in a memory of 1 MiB. --/
theorem guest_tables_one_disk : ∃ m body,
    Kvm.createAcpiTables ⟨0x100000, fun _ => 0⟩ true 2 1 = .ok (rsdpAddr, m) ∧
      SystemTables.machineAt m rsdpAddr = some (Kvm.machine body 2) ∧ Aml.read body = some [Aml.kvmDsdt true 1] ∧
      ByteStore.AgreeOn Outside ⟨0x100000, fun _ => 0⟩ m :=
  (guest_tables ⟨0x100000, fun _ => 0⟩ true 2 1 (by decide) (by decide)).1 (by decide)

end
end NodeVmm.Acpi
