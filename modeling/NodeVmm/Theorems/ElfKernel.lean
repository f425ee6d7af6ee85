import Mathlib.Order.Basic
import NodeVmm.ElfKernel

/-! What an ELF kernel leaves in the guest's memory: its segments, in the order of the program headers. Both loaders stay
    within the file and the memory for any file, and load the same, up to the size that the one reads. -/

namespace NodeVmm
open Checked

namespace Backend
variable {b : Backend} {x y z total offset len : Nat} {what : String}

/-! ### Checked arithmetic -/

theorem eq_of_checkedAdd (hx : x < 2 ^ 64) (hy : y < 2 ^ 64) (h : b.checkedAdd x y what = .ok z) : z = x + y := by
  have hle : x + y < 2 ^ 64 := by
    by_contra hge
    have hnot : ¬x ≤ uint64Max - y := by
      unfold uint64Max
      omega
    have hy0 : y ≠ 0 := by omega
    cases b <;> simp [checkedAdd, hnot, hy0] at h
  rw [checkedAdd_of_lt hle] at h
  exact (Except.ok.inj h).symm

theorem eq_of_checkedMul (h : b.checkedMul x y what = .ok z) : z = x * y := by
  rcases Nat.lt_or_ge (x * y) (2 ^ 64) with hlt | hge
  · rw [checkedMul_of_lt hlt] at h
    exact (Except.ok.inj h).symm
  · obtain ⟨e, he⟩ := checkedMul_of_ge (b := b) what hge
    rw [he] at h
    cases h

theorem le_of_checkRange {u : Unit} (h : b.checkRange total offset len what = .ok u) : offset + len ≤ total := by
  by_contra hgt
  obtain ⟨e, he⟩ := checkRange_of_gt (b := b) what (Nat.lt_of_not_le hgt)
  rw [he] at h
  cases h

theorem toOption_checkRange (b b' : Backend) :
    (b.checkRange total offset len what).toOption = (b'.checkRange total offset len what).toOption := by
  rcases Nat.lt_or_ge total (offset + len) with hgt | hle
  · obtain ⟨e, he⟩ := checkRange_of_gt (b := b) what hgt
    obtain ⟨e', he'⟩ := checkRange_of_gt (b := b') what hgt
    rw [he, he']
    rfl
  · rw [checkRange_of_le hle, checkRange_of_le hle]

theorem toOption_checkedMul (b b' : Backend) : (b.checkedMul x y what).toOption = (b'.checkedMul x y what).toOption := by
  unfold checkedMul
  split_ifs <;> rfl

theorem toOption_checkedAdd (b b' : Backend) (hx : x < 2 ^ 64) :
    (b.checkedAdd x y what).toOption = (b'.checkedAdd x y what).toOption := by
  have hwhp : (y = 0 ∨ x ≤ uint64Max - y) ↔ x ≤ uint64Max - y := by
    unfold uint64Max
    omega
  cases b <;> cases b' <;> simp only [checkedAdd, hwhp] <;> split_ifs <;> rfl

end Backend

/-! ### Segments -/

/-- The memory with the segment: the bytes of the file, and zeros behind them up to the size in memory. --/
def Elf64Phdr.apply (file mem : ByteStore) (ph : Elf64Phdr) : ByteStore where
  size := mem.size
  byte i :=
    if ByteStore.Within ph.paddr ph.memsz i then
      if i < ph.paddr + ph.filesz then file.byte (ph.offset + (i - ph.paddr)) else 0
    else mem.byte i

/-- The program headers with these indices that are segments to load. --/
def loadable (file : ByteStore) (phoff : Nat) (indices : List Nat) : List Elf64Phdr :=
  (indices.map fun i => Elf64Phdr.view file (phoff + i * sizeofPhdr)).filter (·.type = ptLoad)

def segments (file : ByteStore) : List Elf64Phdr :=
  loadable file (Elf64Ehdr.view file).phoff (List.range (Elf64Ehdr.view file).phnum)

/-- What has been loaded of some segments, and where the last of them ends. --/
structure Loaded (file mem : ByteStore) (segments : List Elf64Phdr) (s : ByteStore × Nat) : Prop where
  mem : s.1 = segments.foldl (Elf64Phdr.apply file) mem
  le : ∀ ph ∈ segments, ph.paddr + ph.memsz ≤ s.2
  eq : (segments = [] ∧ s.2 = 0) ∨ ∃ ph ∈ segments, ph.paddr + ph.memsz = s.2

/-- What a loader that succeeds returns. --/
structure LoadSpec (file mem : ByteStore) (r : KernelInfo × ByteStore) : Prop where
  entry : r.1.entry = (Elf64Ehdr.view file).entry
  loaded : Loaded file mem (segments file) (r.2, r.1.kernelEnd)

section
variable {file mem : ByteStore} {ph : Elf64Phdr}

theorem loadable_append {phoff i : Nat} {done : List Nat} : loadable file phoff (done ++ [i]) =
    if (Elf64Phdr.view file (phoff + i * sizeofPhdr)).type = ptLoad then
      loadable file phoff done ++ [Elf64Phdr.view file (phoff + i * sizeofPhdr)]
    else loadable file phoff done := by
  split_ifs with hload
  · simp [loadable, hload]
  · simp [loadable, hload]

/-- One segment more is loaded over what there is. --/
theorem Loaded.append {segments : List Elf64Phdr} {s : ByteStore × Nat} (h : Loaded file mem segments s) :
    Loaded file mem (segments ++ [ph]) (ph.apply file s.1, max s.2 (ph.paddr + ph.memsz)) := by
  refine ⟨?_, fun p hp => ?_, Or.inr ?_⟩
  · rw [List.foldl_append, ← h.mem]
    rfl
  · rcases List.mem_append.mp hp with hp | hp
    · exact Nat.le_trans (h.le p hp) (Nat.le_max_left _ _)
    · rw [List.mem_singleton.mp hp]
      exact Nat.le_max_right _ _
  · rcases Nat.le_total s.2 (ph.paddr + ph.memsz) with hle | hle
    · exact ⟨ph, List.mem_append_right _ List.mem_cons_self, (Nat.max_eq_right hle).symm⟩
    · rcases h.eq with ⟨-, hzero⟩ | ⟨p, hp, heq⟩
      · rw [hzero] at hle
        refine ⟨ph, List.mem_append_right _ List.mem_cons_self, ?_⟩
        rw [hzero, Nat.le_zero.mp hle]
        rfl
      · exact ⟨p, List.mem_append_left _ hp, heq.trans (Nat.max_eq_left hle).symm⟩

end

namespace Backend
variable {b b' : Backend} {file mem : ByteStore} {ph : Elf64Phdr} {gpa offset len : Nat}

theorem stays_hostPtr : Stays (b.hostPtr mem gpa len) (· = gpa) := by
  cases b with
  | kvm => exact stays_check.bind fun _ _ => .ok rfl
  | whp => exact .ok rfl
  | hvf => exact .ok rfl

theorem stays_copyIn (hfile : offset + len ≤ file.size) (hmem : gpa + len ≤ mem.size) :
    Stays (b.copyIn file mem gpa offset len) (· = mem.write gpa (file.read offset len)) := by
  refine stays_hostPtr.bind fun p hp => ?_
  subst hp
  have hin : file.InRange offset len ∧ mem.InRange p len := by
    simp only [ByteStore.InRange]
    omega
  exact (stays_access (decide_eq_true hin)).bind fun _ _ => .ok rfl

theorem stays_zeroFill (hmem : gpa + len ≤ mem.size) :
    Stays (b.zeroFill mem gpa len) (· = mem.write gpa (List.replicate len 0)) := by
  refine stays_hostPtr.bind fun p hp => ?_
  subst hp
  have hin : mem.InRange p len := by
    simp only [ByteStore.InRange]
    omega
  exact (stays_access (decide_eq_true hin)).bind fun _ _ => .ok rfl

/-- The bytes of the file and the zeros behind them are the segment. --/
theorem apply_eq (file mem : ByteStore) (hle : ph.filesz ≤ ph.memsz) :
    (mem.write ph.paddr (file.read ph.offset ph.filesz)).write (ph.paddr + ph.filesz)
      (List.replicate (ph.memsz - ph.filesz) 0) = ph.apply file mem := by
  refine congrArg (ByteStore.mk mem.size) (funext fun i => ?_)
  by_cases hzero : ByteStore.Within (ph.paddr + ph.filesz) (List.replicate (ph.memsz - ph.filesz) (0 : UInt8)).length i
  · have hbyte := ByteStore.byte_write_of_within (s := mem.write ph.paddr (file.read ph.offset ph.filesz)) hzero
    rw [List.length_replicate] at hzero
    have hin : ByteStore.Within ph.paddr ph.memsz i := by
      simp only [ByteStore.Within] at hzero ⊢
      omega
    rw [if_pos hin, if_neg (Nat.not_lt_of_le hzero.1)]
    refine hbyte.trans ?_
    rw [List.getD_replicate]
    simp only [ByteStore.Within] at hzero
    omega
  · have hbyte := ByteStore.byte_write_of_not_within (s := mem.write ph.paddr (file.read ph.offset ph.filesz)) hzero
    rw [List.length_replicate] at hzero
    refine hbyte.trans ?_
    by_cases hfile : ByteStore.Within ph.paddr ph.filesz i
    · have hin : ByteStore.Within ph.paddr (file.read ph.offset ph.filesz).length i := by rwa [ByteStore.length_read]
      have hmem : ByteStore.Within ph.paddr ph.memsz i := ⟨hfile.1, Nat.lt_of_lt_of_le hfile.2 (Nat.add_le_add_left hle _)⟩
      rw [if_pos hmem, if_pos hfile.2, ByteStore.byte_write_of_within hin, ByteStore.getD_read (Nat.sub_lt_left_of_lt_add hfile.1 hfile.2)]
    · have hout : ¬ByteStore.Within ph.paddr (file.read ph.offset ph.filesz).length i := by rwa [ByteStore.length_read]
      have hmem : ¬ByteStore.Within ph.paddr ph.memsz i := by
        simp only [ByteStore.Within] at hzero hfile ⊢
        omega
      rw [if_neg hmem, ByteStore.byte_write_of_not_within hout]

theorem stays_loadSegment {kernelEnd : Nat} (hpaddr : ph.paddr < 2 ^ 64) (hfilesz : ph.filesz < 2 ^ 64)
    (hmemsz : ph.memsz < 2 ^ 64) : Stays (b.loadSegment file (mem, kernelEnd) ph)
      (· = (ph.apply file mem, max kernelEnd (ph.paddr + ph.memsz))) := by
  refine stays_check.bind fun _ hle => ?_
  refine (stays_lift fun _ => le_of_checkRange).bind fun _ hfile => ?_
  refine (stays_lift fun _ => le_of_checkRange).bind fun _ hmem => ?_
  have hle := of_decide_eq_true hle
  refine (stays_copyIn hfile (by omega)).bind fun mem' hmem' => ?_
  have hrest : Stays (b.fillRest mem' ph) (· = ph.apply file mem) := by
    subst hmem'
    rw [fillRest]
    split_ifs with hlt
    · refine (stays_lift fun _ => eq_of_checkedAdd hpaddr hfilesz).bind fun z hz => ?_
      subst hz
      refine (stays_zeroFill ?_).mono fun m hm => hm.trans (apply_eq file mem hle)
      rw [ByteStore.size_write]
      omega
    · have hzero : ph.memsz - ph.filesz = 0 := by omega
      have happly := apply_eq file mem hle
      rw [hzero, List.replicate_zero, ByteStore.write_nil] at happly
      exact .ok happly
  refine hrest.bind fun m hm => ?_
  subst hm
  refine (stays_lift fun _ => eq_of_checkedAdd hpaddr hmemsz).bind fun z hz => ?_
  subst hz
  exact .ok rfl

/-- One program header: its entry is in the table, and it is loaded if it is a segment to load. --/
theorem stays_loadProgramHeader {phoff i : Nat} {done : List Nat} {s : ByteStore × Nat} (hphoff : phoff < 2 ^ 64)
    (hi : i < 2 ^ 16) (hentry : phoff + i * sizeofPhdr + sizeofPhdr ≤ file.size)
    (h : Loaded file mem (loadable file phoff done) s) :
    Stays (b.loadProgramHeader file phoff s i) (Loaded file mem (loadable file phoff (done ++ [i]))) := by
  refine (stays_lift fun _ => eq_of_checkedMul).bind fun index hindex => ?_
  subst hindex
  have hsmall : i * sizeofPhdr < 2 ^ 64 := by
    simp only [sizeofPhdr]
    omega
  refine (stays_lift fun _ => eq_of_checkedAdd hphoff hsmall).bind fun off hoff => ?_
  subst hoff
  have hin : file.InRange (phoff + i * sizeofPhdr) sizeofPhdr := by
    simp only [ByteStore.InRange]
    omega
  refine (stays_access (decide_eq_true hin)).bind fun _ _ => ?_
  rw [loadable_append]
  by_cases hload : (Elf64Phdr.view file (phoff + i * sizeofPhdr)).type = ptLoad
  · simp only [if_neg (not_not.mpr hload), if_pos hload]
    refine (stays_loadSegment (UInt64.toNat_lt _) (UInt64.toNat_lt _) (UInt64.toNat_lt _)).mono fun t ht => ?_
    rw [ht]
    exact h.append
  · simp only [if_pos hload, if_neg hload]
    exact .ok h

/-- The table of the program headers lies in the file. --/
theorem stays_checkHeader {eh : Elf64Ehdr} :
    Stays (b.checkHeader eh file) fun _ => eh.phoff + eh.phnum * sizeofPhdr ≤ file.size := by
  refine stays_check.bind fun _ _ => stays_check.bind fun _ _ => stays_check.bind fun _ _ => stays_check.bind fun _ _ =>
    stays_check.bind fun _ _ => ?_
  refine (stays_lift fun _ => eq_of_checkedMul).bind fun phSize hsize => ?_
  subst hsize
  exact stays_lift fun _ => le_of_checkRange

theorem stays_loadElf : Stays (b.loadElf mem file) (LoadSpec file mem) := by
  refine stays_check.bind fun _ hsize => ?_
  have hin : file.InRange 0 sizeofEhdr := ⟨Nat.zero_le _, of_decide_eq_true hsize⟩
  refine (stays_access (decide_eq_true hin)).bind fun _ _ => ?_
  refine stays_checkHeader.bind fun _ htable => ?_
  have hphnum : (Elf64Ehdr.view file).phnum < 2 ^ 16 := (file.readU16 56).toNat_lt
  have hround : ∀ (done : List Nat) (i : Nat) (s : ByteStore × Nat), i < (Elf64Ehdr.view file).phnum →
      Loaded file mem (loadable file (Elf64Ehdr.view file).phoff done) s →
      Stays (b.loadProgramHeader file (Elf64Ehdr.view file).phoff s i)
        (Loaded file mem (loadable file (Elf64Ehdr.view file).phoff (done ++ [i]))) := by
    intro done i s hi h
    refine stays_loadProgramHeader (file.readU64 32).toNat_lt (Nat.lt_trans hi hphnum) ?_ h
    simp only [sizeofPhdr] at htable ⊢
    omega
  have hloop := @Stays.foldlM _ _ _ _ _ hround (List.range (Elf64Ehdr.view file).phnum) [] (mem, 0)
    (fun i hi => List.mem_range.mp hi) ⟨rfl, nofun, Or.inl ⟨rfl, rfl⟩⟩
  refine hloop.bind fun s hs => stays_check.bind fun _ _ => .ok ⟨rfl, hs⟩

/-! ### The same in both -/

/-- The check of the pointer refuses nothing that the access would allow. --/
theorem agree_hostPtr {ok : Bool} {m : ByteStore} (hok : ok = true → mem.InRange gpa len) :
    Agree (b.hostPtr mem gpa len >>= fun _ => access ok >>= fun _ => .ok m) (access ok >>= fun _ => .ok m) := by
  cases b with
  | kvm =>
    cases ok with
    | true =>
      have hin : decide (gpa ≤ mem.size ∧ len ≤ mem.size - gpa) = true := decide_eq_true (hok rfl)
      rw [hostPtr, check, if_pos hin]
      rfl
    | false =>
      rw [hostPtr, check]
      split_ifs <;> rfl
  | whp => rfl
  | hvf => rfl

theorem hostPtr_bind {f : Nat → Call α} : b.hostPtr mem gpa len >>= f = b.hostPtr mem gpa len >>= fun _ => f gpa := by
  cases b with
  | kvm =>
    rw [hostPtr, check]
    split_ifs <;> rfl
  | whp => rfl
  | hvf => rfl

theorem agree_copyIn (b b' : Backend) : Agree (b.copyIn file mem gpa offset len) (b'.copyIn file mem gpa offset len) := by
  have hok : decide (file.InRange offset len ∧ mem.InRange gpa len) = true → mem.InRange gpa len := fun h =>
    (of_decide_eq_true h).2
  rw [copyIn, copyIn, hostPtr_bind (b := b), hostPtr_bind (b := b')]
  exact (agree_hostPtr hok).trans (agree_hostPtr hok).symm

theorem agree_zeroFill (b b' : Backend) : Agree (b.zeroFill mem gpa len) (b'.zeroFill mem gpa len) := by
  have hok : decide (mem.InRange gpa len) = true → mem.InRange gpa len := of_decide_eq_true
  rw [zeroFill, zeroFill, hostPtr_bind (b := b), hostPtr_bind (b := b')]
  exact (agree_hostPtr hok).trans (agree_hostPtr hok).symm

theorem agree_loadSegment (b b' : Backend) {s : ByteStore × Nat} (hpaddr : ph.paddr < 2 ^ 64) :
    Agree (b.loadSegment file s ph) (b'.loadSegment file s ph) := by
  refine agree_check.bind fun _ => (agree_lift (toOption_checkRange b b')).bind fun _ => ?_
  refine (agree_lift (toOption_checkRange b b')).bind fun _ => (agree_copyIn b b').bind fun m => ?_
  have hrest : Agree (b.fillRest m ph) (b'.fillRest m ph) := by
    rw [fillRest, fillRest]
    split_ifs
    · exact (agree_lift (toOption_checkedAdd b b' hpaddr)).bind fun _ => agree_zeroFill b b'
    · exact .refl _
  exact hrest.bind fun _ => (agree_lift (toOption_checkedAdd b b' hpaddr)).bind fun _ => .refl _

theorem agree_loadProgramHeader (b b' : Backend) {phoff i : Nat} {s : ByteStore × Nat} (hphoff : phoff < 2 ^ 64) :
    Agree (b.loadProgramHeader file phoff s i) (b'.loadProgramHeader file phoff s i) := by
  refine (agree_lift (toOption_checkedMul b b')).bind fun index => ?_
  refine (agree_lift (toOption_checkedAdd b b' hphoff)).bind fun off => .bind (.refl _) fun _ => ?_
  by_cases hload : (Elf64Phdr.view file off).type ≠ ptLoad
  · simp only [if_pos hload]
    exact .refl _
  · simp only [if_neg hload]
    exact agree_loadSegment b b' (UInt64.toNat_lt _)

theorem agree_loadElf (b b' : Backend) : Agree (b.loadElf mem file) (b'.loadElf mem file) := by
  have hheader : Agree (b.checkHeader (Elf64Ehdr.view file) file) (b'.checkHeader (Elf64Ehdr.view file) file) := by
    refine agree_check.bind fun _ => agree_check.bind fun _ => agree_check.bind fun _ => agree_check.bind fun _ =>
      agree_check.bind fun _ => ?_
    exact (agree_lift (toOption_checkedMul b b')).bind fun _ => agree_lift (toOption_checkRange b b')
  refine agree_check.bind fun _ => .bind (.refl _) fun _ => hheader.bind fun _ => ?_
  refine (Agree.foldlM fun s i => agree_loadProgramHeader b b' (file.readU64 32).toNat_lt).bind fun s => ?_
  exact agree_check.bind fun _ => .refl _

end Backend

/-- A byte that is in no segment is as before. --/
theorem byte_of_segments {file mem : ByteStore} {i : Nat} {segments : List Elf64Phdr}
    (h : ∀ ph ∈ segments, ¬ByteStore.Within ph.paddr ph.memsz i) :
    (segments.foldl (Elf64Phdr.apply file) mem).byte i = mem.byte i := by
  induction segments generalizing mem with
  | nil => rfl
  | cons ph segments ih =>
    have hrest := @ih (ph.apply file mem) fun p hp => h p (List.mem_cons_of_mem ph hp)
    refine hrest.trans ?_
    simp only [Elf64Phdr.apply, if_neg (h ph List.mem_cons_self)]

theorem byte_of_loadSpec {file mem : ByteStore} {r : KernelInfo × ByteStore} (h : LoadSpec file mem r) {i : Nat}
    (hout : ∀ ph ∈ segments file, ¬ByteStore.Within ph.paddr ph.memsz i) : r.2.byte i = mem.byte i := by
  have hmem := h.loaded.mem
  simp only at hmem
  rw [hmem]
  exact byte_of_segments hout

/-- Both loaders stay within the file and the memory, and what they return is the memory with the segments. Up to the size
    that the WHP loader reads they return the same; a larger file it refuses. --/
theorem load_elf_kernel :
    (∀ mem file, Stays (Kvm.loadElfKernel mem file) (LoadSpec file mem)) ∧
    (∀ path mem file, Stays (Whp.loadElfKernel path mem file) (LoadSpec file mem)) ∧
    (∀ file mem r, LoadSpec file mem r → ∀ i, (∀ ph ∈ segments file, ¬ByteStore.Within ph.paddr ph.memsz i) →
      r.2.byte i = mem.byte i) ∧
    (∀ path mem file, file.size ≤ int32Max → Agree (Kvm.loadElfKernel mem file) (Whp.loadElfKernel path mem file)) ∧
    (∀ path mem file, int32Max < file.size → ∃ e, Whp.loadElfKernel path mem file = .error e) := by
  refine ⟨fun _ _ => Backend.stays_loadElf, fun _ _ _ => stays_check.bind fun _ _ => Backend.stays_loadElf,
    fun _ _ _ h _ => byte_of_loadSpec h, fun path mem file hsize => ?_, fun path mem file hsize => ?_⟩
  · rw [Whp.loadElfKernel, check, if_pos (decide_eq_true hsize)]
    exact Backend.agree_loadElf .kvm .whp
  · have hfalse : ¬decide (file.size ≤ int32Max) = true := fun h => Nat.not_le_of_lt hsize (of_decide_eq_true h)
    rw [Whp.loadElfKernel, check, if_neg hfalse]
    exact ⟨_, rfl⟩

/-- The header of a kernel with this many program headers behind it. --/
def elfHeader (phnum : UInt8) : List UInt8 :=
  elfMagic ++ [2, 1] ++ List.replicate 12 0 ++ [0x3E, 0] ++ List.replicate 4 0 ++ [0, 0, 0x10, 0, 0, 0, 0, 0] ++
    [64, 0, 0, 0, 0, 0, 0, 0] ++ List.replicate 14 0 ++ [56, 0] ++ [phnum, 0] ++ List.replicate 6 0

def fileOf (size : Nat) (bytes : List UInt8) : ByteStore := ⟨size, fun i => bytes.getD i 0⟩

/-- A segment to load: where it is in the file and in memory, and its two sizes. --/
def segmentHeader (offset paddr filesz memsz : UInt8) : List UInt8 :=
  [1] ++ List.replicate 7 0 ++ [offset] ++ List.replicate 15 0 ++ [paddr] ++ List.replicate 7 0 ++ [filesz] ++
    List.replicate 7 0 ++ [memsz] ++ List.replicate 15 0

/-- Two segments of which the second lies in the first. --/
def overlapping : ByteStore :=
  fileOf 180 (elfHeader 2 ++ segmentHeader 176 16 4 8 ++ segmentHeader 176 18 2 2 ++ [1, 2, 3, 4])

theorem load_elf_kernel_overlapping :
    Agree (Kvm.loadElfKernel ⟨64, fun _ => 9⟩ overlapping) (Whp.loadElfKernel "vmlinux" ⟨64, fun _ => 9⟩ overlapping) ∧
      ((Kvm.loadElfKernel ⟨64, fun _ => 9⟩ overlapping).toOption.map fun r => (r.1, r.2.read 15 10)) =
        some (⟨0x100000, 24⟩, [9, 1, 2, 1, 2, 0, 0, 0, 0, 9]) ∧
      ∃ e, Whp.loadElfKernel "vmlinux" ⟨64, fun _ => 9⟩ (fileOf (2 ^ 31) []) = .error e := by
  obtain ⟨-, -, -, hagree, hlarge⟩ := load_elf_kernel
  exact ⟨hagree "vmlinux" ⟨64, fun _ => 9⟩ overlapping (by decide), by decide +kernel,
    hlarge "vmlinux" ⟨64, fun _ => 9⟩ (fileOf (2 ^ 31) []) (by decide)⟩

/-- A kernel of two GiB is loaded by the one and refused by the other. --/
theorem loaders_differ_on_large_file :
    (Kvm.loadElfKernel ⟨64, fun _ => 9⟩ (fileOf (2 ^ 31) (elfHeader 0))).toOption.isSome = true ∧
      (Whp.loadElfKernel "vmlinux" ⟨64, fun _ => 9⟩ (fileOf (2 ^ 31) (elfHeader 0))).toOption.isSome = false := by
  decide +kernel

end NodeVmm
