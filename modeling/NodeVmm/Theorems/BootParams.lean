import NodeVmm.BootParams
import NodeVmm.Lib.BootProtocol
import NodeVmm.Theorems.PageTables

/-! The start parameters in the memory, and what the kernel reads from them. --/

namespace NodeVmm
open Checked
open BootProtocol (Region Params)

section
variable {b : Backend} {mem : ByteStore} {cmdline : List UInt8} {n memBytes : Nat}

/-! ### What is written -/

def e820Patches (off addr size typ : Nat) : List Patch :=
  [⟨off, Words.le 8 addr⟩, ⟨off + 8, Words.le 8 size⟩, ⟨off + 16, Words.le 4 typ⟩]

/-- The four entries of the memory map. --/
def mapPatches (memBytes : Nat) : List Patch :=
  e820Patches 0x72D0 0x00000000 0x0009FC00 1 ++ (e820Patches 0x72E4 0x0009FC00 0x00040400 2 ++
    (e820Patches 0x72F8 0x000E0000 0x00020000 2 ++ e820Patches 0x730C 0x00100000 (memBytes - 0x00100000) 1))

/-- In the order of the writes; `flags` is what the byte at 0x7211 had before. --/
def bootPatches (memBytes : Nat) (cmdline : List UInt8) (flags : UInt8) : List Patch :=
  [⟨kCmdlineAddr, cmdline ++ [0]⟩, ⟨0x71E8, [4]⟩] ++ (mapPatches memBytes ++
    [⟨0x71FA, Words.le 2 0xFFFF⟩, ⟨0x71FE, Words.le 2 0xAA55⟩, ⟨0x7202, Words.le 4 0x53726448⟩, ⟨0x7210, [0xFF]⟩,
      ⟨0x7211, [flags ||| 0x01]⟩, ⟨0x7228, Words.le 4 kCmdlineAddr⟩, ⟨0x7238, Words.le 4 cmdline.length⟩])

namespace Backend

theorem writes_putE820 (b : Backend) (off addr size typ : Nat) (h : off + 20 ≤ n) :
    Writes n (fun m => b.putE820 m off addr size typ) fun _ => e820Patches off addr size typ := by
  have hfirst : Writes n (fun m => b.put m off 20 (Words.le 8 addr)) fun _ => [⟨off, Words.le 8 addr⟩] :=
    writes_put h (by rw [Words.length_le]; decide)
  have hsecond : Writes n (fun m => b.put m (off + 8) 12 (Words.le 8 size)) fun _ => [⟨off + 8, Words.le 8 size⟩] :=
    writes_put (by omega) (by rw [Words.length_le]; decide)
  have hthird : Writes n (fun m => b.put m (off + 16) 4 (Words.le 4 typ)) fun _ => [⟨off + 16, Words.le 4 typ⟩] :=
    writes_put (by omega) (Nat.le_of_eq Words.length_le)
  have hall := hfirst.bind (hsecond.bind hthird)
  exact hall

theorem writes_orByte {gpa : Nat} {value : UInt8} (h : gpa + 1 ≤ n) :
    Writes n (fun m => b.orByte m gpa value) fun m => [⟨gpa, [m.byte gpa ||| value]⟩] := by
  intro m hm
  have hin : m.InRange gpa 1 := by
    simp only [ByteStore.InRange]
    omega
  dsimp only
  rw [orByte, hostPtr_eq (by rw [hm]; exact h)]
  dsimp only [bind, Except.bind]
  rw [access, if_pos (decide_eq_true hin)]
  rfl

/-- A pointer that is taken and not used. --/
theorem Writes.hostPtr {gpa span : Nat} {g : ByteStore → Call ByteStore} {ps : ByteStore → List Patch} (hg : Writes n g ps)
    (b : Backend) (h : gpa + span ≤ n) : Writes n (fun m => b.hostPtr m gpa span >>= fun _ => g m) ps := by
  intro m hm
  have hrest := hg m hm
  dsimp only
  rw [hostPtr_eq (by rw [hm]; exact h)]
  exact hrest

/-- Patches that depend on the memory by one byte only. --/
theorem Writes.exists {f : ByteStore → Call ByteStore} {ps : ByteStore → List Patch} {g : UInt8 → List Patch}
    (hf : Writes n f ps) (hg : ∀ m, ∃ v, ps m = g v) : ∀ m : ByteStore, m.size = n → ∃ v, f m = .ok (m.patch (g v)) := by
  intro m hm
  obtain ⟨v, hv⟩ := hg m
  exact ⟨v, by rw [hf m hm, hv]⟩

theorem writes_putMemoryMap (h : 0x7320 ≤ n) (hbytes : 0x00100000 < memBytes) :
    Writes n (fun m => b.putMemoryMap m memBytes) fun _ => mapPatches memBytes := by
  have hfourth : Writes n (fun m => if 0x00100000 < memBytes then b.putE820 m 0x730C 0x00100000 (memBytes - 0x00100000) 1
      else return m) fun _ => e820Patches 0x730C 0x00100000 (memBytes - 0x00100000) 1 := by
    simp only [if_pos hbytes]
    exact writes_putE820 b _ _ _ _ h
  have hfirst := writes_putE820 (n := n) b 0x72D0 0x00000000 0x0009FC00 1 (by omega)
  have hsecond := writes_putE820 (n := n) b 0x72E4 0x0009FC00 0x00040400 2 (by omega)
  have hthird := writes_putE820 (n := n) b 0x72F8 0x000E0000 0x00020000 2 (by omega)
  have hall := hfirst.bind (hsecond.bind (hthird.bind hfourth))
  exact hall

theorem checkBefore_eq (hmem : 0x100000 ≤ mem.size) (hline : cmdline.length < BootProtocol.commandLineSize) :
    b.checkBefore mem cmdline = .ok () := by
  have hsize : BootProtocol.commandLineSize = 0x800 := rfl
  have hline' : kCmdlineAddr + (cmdline.length + 1) ≤ mem.size := by
    simp only [kCmdlineAddr]
    omega
  rw [checkBefore]
  split
  · have hrange : ∀ off len what, off + len ≤ 0x100000 → lift (Backend.whp.checkRange mem.size off len what) = .ok () := by
      intro off len what h
      rw [checkRange_of_le (by omega)]
      rfl
    have hmax : cmdline.length ≤ uint32Max := by
      simp only [uint32Max]
      omega
    have hfit : kCmdlineAddr + (cmdline.length + 1) ≤ 0x100000 := by
      simp only [kCmdlineAddr]
      omega
    rw [checkBootParams, check, if_pos (decide_eq_true hmax)]
    simp only [bind, Except.bind, hrange _ _ _ hfit, hrange (kBootParamsAddr + 0x1E8) 1 _ (by decide),
      hrange (kBootParamsAddr + 0x1FA) 2 _ (by decide), hrange (kBootParamsAddr + 0x1FE) 2 _ (by decide),
      hrange (kBootParamsAddr + 0x202) 4 _ (by decide), hrange (kBootParamsAddr + 0x210) 2 _ (by decide),
      hrange (kBootParamsAddr + 0x228) 4 _ (by decide), hrange (kBootParamsAddr + 0x238) 4 _ (by decide),
      hrange (kBootParamsAddr + kE820Offset) (kE820EntrySize * kMaxE820Entries) _ (by decide)]
  · rw [checkPointers, hostPtr_eq (by simp only [kBootParamsAddr]; omega), hostPtr_eq hline']
    rfl

/-- What `WriteBootParams` leaves in a memory of more than 1 MiB. --/
theorem writeBootParams_eq (hbytes : 0x100000 < memBytes) (hmem : 0x100000 ≤ mem.size)
    (hline : cmdline.length < BootProtocol.commandLineSize) :
    ∃ flags, b.writeBootParams mem memBytes cmdline = .ok (mem.patch (bootPatches memBytes cmdline flags)) := by
  have hsize : BootProtocol.commandLineSize = 0x800 := rfl
  have hline' : Writes mem.size (fun m => b.put m kCmdlineAddr (cmdline.length + 1) (cmdline ++ [0]))
      fun _ => [⟨kCmdlineAddr, cmdline ++ [0]⟩] :=
    writes_put (by simp only [kCmdlineAddr]; omega) (Nat.le_of_eq List.length_append)
  have hcount : Writes mem.size (fun m => b.put m 0x71E8 1 [4]) fun _ => [⟨0x71E8, [4]⟩] :=
    writes_put (by omega) (Nat.le_refl _)
  have hmap := writes_putMemoryMap (b := b) (n := mem.size) (by omega) hbytes
  have hword : ∀ off k v, off + k ≤ 0x100000 → Writes mem.size (fun m => b.putWord m off k v) fun _ => [⟨off, Words.le k v⟩] :=
    fun off k v h => writes_putWord (by omega)
  have hloader : Writes mem.size (fun m => b.put m 0x7210 1 [0xFF]) fun _ => [⟨0x7210, [0xFF]⟩] :=
    writes_put (by omega) (Nat.le_refl _)
  have hflags : Writes mem.size (fun m => b.orByte m 0x7211 0x01) fun m => [⟨0x7211, [m.byte 0x7211 ||| 0x01]⟩] :=
    writes_orByte (by omega)
  have hfields := (hword 0x71FA 2 0xFFFF (by decide)).bind ((hword 0x71FE 2 0xAA55 (by decide)).bind
    ((hword 0x7202 4 0x53726448 (by decide)).bind (hloader.bind (hflags.bind ((hword 0x7228 4 kCmdlineAddr (by decide)).bind
      (hword 0x7238 4 cmdline.length (by decide)))))))
  have hall := hline'.bind ((hcount.bind (hmap.bind hfields)).hostPtr b (by omega : 0x72D0 + 80 ≤ mem.size))
  obtain ⟨flags, hwrite⟩ := hall.exists (g := bootPatches memBytes cmdline) (fun m => ⟨_, rfl⟩) mem rfl
  refine ⟨flags, ?_⟩
  rw [writeBootParams, checkBefore_eq hmem hline]
  exact hwrite

end Backend
/-! ### Where it is written -/

def fieldPatches (length : Nat) (flags : UInt8) : List Patch :=
  [⟨0x71E8, [4]⟩, ⟨0x71FA, Words.le 2 0xFFFF⟩, ⟨0x71FE, Words.le 2 0xAA55⟩, ⟨0x7202, Words.le 4 0x53726448⟩, ⟨0x7210, [0xFF]⟩,
    ⟨0x7211, [flags ||| 0x01]⟩, ⟨0x7228, Words.le 4 kCmdlineAddr⟩, ⟨0x7238, Words.le 4 length⟩]

theorem fieldPatches_ordered (length : Nat) (flags : UInt8) : Patch.Ordered 0x723C 0x71E8 (fieldPatches length flags) := by
  simp only [fieldPatches, Patch.Ordered, Words.length_le, List.length_singleton]
  decide

theorem mapPatches_ordered (memBytes : Nat) : Patch.Ordered 0x7320 0x723C (mapPatches memBytes) := by
  simp only [mapPatches, e820Patches, List.cons_append, List.nil_append, Patch.Ordered, Words.length_le]
  decide

theorem mem_bootPatches {flags : UInt8} {p : Patch} : p ∈ bootPatches memBytes cmdline flags ↔
    p ∈ fieldPatches cmdline.length flags ++ mapPatches memBytes ∨ p = ⟨kCmdlineAddr, cmdline ++ [0]⟩ := by
  simp only [bootPatches, fieldPatches, List.mem_append, List.mem_cons, List.not_mem_nil, or_false]
  tauto

theorem pagePatches_ordered (length memBytes : Nat) (flags : UInt8) :
    Patch.Ordered 0x7320 0x71E8 (fieldPatches length flags ++ mapPatches memBytes) :=
  (fieldPatches_ordered length flags).append (mapPatches_ordered memBytes)

/-- The writes go to the page of the parameters and to the command line. --/
theorem bootPatches_inside {flags : UInt8} {p : Patch} (hp : p ∈ bootPatches memBytes cmdline flags) :
    p.Inside 0x71E8 0x7320 ∨ p.Inside kCmdlineAddr (kCmdlineAddr + cmdline.length + 1) := by
  rcases mem_bootPatches.mp hp with hpage | rfl
  · exact Or.inl ((pagePatches_ordered _ _ _).inside hpage)
  · refine Or.inr ⟨Nat.le_refl _, ?_⟩
    rw [List.length_append, List.length_singleton]
    exact Nat.le_refl _

theorem bootPatches_separate (memBytes : Nat) (cmdline : List UInt8) (flags : UInt8) :
    Patch.Separate (bootPatches memBytes cmdline flags) := by
  have hline : Patch.Ordered (kCmdlineAddr + cmdline.length + 1) 0x7320 [⟨kCmdlineAddr, cmdline ++ [0]⟩] :=
    ⟨(by decide : 0x7320 ≤ kCmdlineAddr), by rw [List.length_append, List.length_singleton]; exact Nat.le_refl _⟩
  refine ((pagePatches_ordered cmdline.length memBytes flags).append hline).separate.of_subset fun p hp => ?_
  rw [List.mem_append, List.mem_singleton]
  exact mem_bootPatches.mp hp

/-! ### What the kernel reads -/

/-- The memory map of a guest. --/
def guestMap (memBytes : Nat) : List Region :=
  [⟨0x00000000, 0x0009FC00, 1⟩, ⟨0x0009FC00, 0x00040400, 2⟩, ⟨0x000E0000, 0x00020000, 2⟩,
    ⟨0x00100000, memBytes - 0x00100000, 1⟩]

theorem params_of_holds {m : ByteStore} {flags : UInt8} {rsdpAddr : Nat}
    (hholds : m.Holds (bootPatches memBytes cmdline flags)) (hroot : m.word 0x7070 8 = rsdpAddr)
    (hbytes : memBytes < 2 ^ 64) (hline : cmdline.length < BootProtocol.commandLineSize) :
    BootProtocol.paramsAt m kBootParamsAddr = some ⟨guestMap memBytes, cmdline.takeWhile (· != 0), rsdpAddr⟩ := by
  have hpage : ∀ p ∈ fieldPatches cmdline.length flags ++ mapPatches memBytes, p ∈ bootPatches memBytes cmdline flags :=
    fun p hp => mem_bootPatches.mpr (Or.inl hp)
  have hfield : ∀ off k v, ⟨off, Words.le k v⟩ ∈ fieldPatches cmdline.length flags → v < 256 ^ k → m.word off k = v :=
    fun off k v hmem hv => hholds.word (hpage _ (List.mem_append_left _ hmem)) hv
  have hregion : ∀ off addr size typ, (∀ p ∈ e820Patches off addr size typ, p ∈ mapPatches memBytes) → addr < 2 ^ 64 →
      size < 2 ^ 64 → typ < 2 ^ 32 → BootProtocol.regionAt m off = ⟨addr, size, typ⟩ := by
    intro off addr size typ hmem haddr hsize htyp
    have hword : ∀ o k v, ⟨o, Words.le k v⟩ ∈ e820Patches off addr size typ → v < 256 ^ k → m.word o k = v :=
      fun o k v hp hv => hholds.word (hpage _ (List.mem_append_right _ (hmem _ hp))) hv
    rw [BootProtocol.regionAt, hword off 8 addr (by simp [e820Patches]) haddr,
      hword (off + 8) 8 size (by simp [e820Patches]) hsize, hword (off + 16) 4 typ (by simp [e820Patches]) htyp]
  have hmap : (List.range 4).map (fun i => BootProtocol.regionAt m (kBootParamsAddr + 0x2D0 + i * 20)) =
      guestMap memBytes := by
    have hall : (List.range 4).map (fun i => BootProtocol.regionAt m (kBootParamsAddr + 0x2D0 + i * 20)) =
        [BootProtocol.regionAt m 0x72D0, BootProtocol.regionAt m 0x72E4, BootProtocol.regionAt m 0x72F8,
          BootProtocol.regionAt m 0x730C] := rfl
    have hfirst := hregion 0x72D0 0x00000000 0x0009FC00 1 (fun p hp => List.mem_append_left _ hp) (by decide) (by decide)
      (by decide)
    have hsecond := hregion 0x72E4 0x0009FC00 0x00040400 2
      (fun p hp => List.mem_append_right _ (List.mem_append_left _ hp)) (by decide) (by decide) (by decide)
    have hthird := hregion 0x72F8 0x000E0000 0x00020000 2
      (fun p hp => List.mem_append_right _ (List.mem_append_right _ (List.mem_append_left _ hp))) (by decide) (by decide)
      (by decide)
    have hfourth := hregion 0x730C 0x00100000 (memBytes - 0x00100000) 1
      (fun p hp => List.mem_append_right _ (List.mem_append_right _ (List.mem_append_right _ hp))) (by decide) (by omega)
      (by decide)
    rw [hall, hfirst, hsecond, hthird, hfourth, guestMap]
  have hcount : m.word (kBootParamsAddr + 0x1E8) 1 = 4 := hfield 0x71E8 1 4 List.mem_cons_self (by decide)
  have hsector : m.word (kBootParamsAddr + 0x1FE) 2 = 0xAA55 := hfield 0x71FE 2 0xAA55 (by simp [fieldPatches]) (by decide)
  have hheader : m.word (kBootParamsAddr + 0x202) 4 = 0x53726448 :=
    hfield 0x7202 4 0x53726448 (by simp [fieldPatches]) (by decide)
  have hpointer : m.word (kBootParamsAddr + 0x228) 4 = kCmdlineAddr :=
    hfield 0x7228 4 kCmdlineAddr (by simp [fieldPatches]) (by decide)
  have hread : m.read kCmdlineAddr (cmdline.length + 1) = cmdline ++ [0] := by
    have hall := (hholds _ (mem_bootPatches.mpr (Or.inr rfl))).1
    rwa [List.length_append, List.length_singleton] at hall
  rw [BootProtocol.paramsAt, if_pos ⟨hsector, hheader⟩, hcount, hmap, hpointer, BootProtocol.commandLineAt_eq hread hline]
  rw [show kBootParamsAddr + 0x70 = 0x7070 from rfl, hroot]

/-- Exactly the memory below the firmware's and that from 1 MiB on is the kernel's. --/
theorem usable_guestMap (hbytes : 0x100000 ≤ memBytes) (a : Nat) :
    BootProtocol.Usable (guestMap memBytes) a ↔ a < 0x9FC00 ∨ (0x100000 ≤ a ∧ a < memBytes) := by
  simp [BootProtocol.Usable, guestMap, BootProtocol.Region.Contains, BootProtocol.usableKind]
  omega

end
end NodeVmm
