import NodeVmm.PageTables
import NodeVmm.Lib.Paging

/-! The page tables that the guest starts with: each address below 4 GiB is translated to itself. -/

namespace NodeVmm
open Checked Paging

namespace Backend
variable {b : Backend} {mem : ByteStore} {gpa span n v : Nat} {bytes : List UInt8}

theorem hostPtr_eq (h : gpa + span ≤ mem.size) : b.hostPtr mem gpa span = .ok gpa := by
  cases b with
  | kvm =>
    have hin : gpa ≤ mem.size ∧ span ≤ mem.size - gpa := by omega
    rw [hostPtr, check, if_pos (decide_eq_true hin)]
    rfl
  | whp => rfl
  | hvf => rfl

theorem put_eq (h : gpa + span ≤ mem.size) (hlen : bytes.length ≤ span) :
    b.put mem gpa span bytes = .ok (mem.patch [⟨gpa, bytes⟩]) := by
  have hin : mem.InRange gpa bytes.length := by
    simp only [ByteStore.InRange]
    omega
  rw [put, hostPtr_eq h]
  dsimp only [bind, Except.bind]
  rw [access, if_pos (decide_eq_true hin)]
  rfl

theorem putWord_eq (h : gpa + n ≤ mem.size) : b.putWord mem gpa n v = .ok (mem.patch [⟨gpa, Words.le n v⟩]) :=
  put_eq h (Nat.le_of_eq Words.length_le)

/-- In every memory of the size the program writes the patches, which may depend on what is there. --/
def Writes (size : Nat) (f : ByteStore → Call ByteStore) (ps : ByteStore → List Patch) : Prop :=
  ∀ m : ByteStore, m.size = size → f m = .ok (m.patch (ps m))

theorem Writes.bind {size : Nat} {f g : ByteStore → Call ByteStore} {ps qs : ByteStore → List Patch} (hf : Writes size f ps)
    (hg : Writes size g qs) : Writes size (fun m => f m >>= g) (fun m => ps m ++ qs (m.patch (ps m))) := by
  intro m hm
  have hrest := hg (m.patch (ps m)) (ByteStore.size_patch.trans hm)
  dsimp only
  rw [hf m hm, ByteStore.patch_append]
  exact hrest

/-- A loop whose rounds write patches. --/
theorem Writes.foldlM {α : Type} {size : Nat} {step : ByteStore → α → Call ByteStore} {f : α → List Patch} {l : List α}
    (h : ∀ x ∈ l, Writes size (step · x) fun _ => f x) : Writes size (fun m => l.foldlM step m) fun _ => l.flatMap f := by
  induction l with
  | nil => exact fun m _ => rfl
  | cons x l ih =>
    obtain ⟨hx, hl⟩ := List.forall_mem_cons.mp h
    exact hx.bind (ih hl)

theorem writes_put {size : Nat} (h : gpa + span ≤ size) (hlen : bytes.length ≤ span) :
    Writes size (fun m => b.put m gpa span bytes) fun _ => [⟨gpa, bytes⟩] := fun m hm => put_eq (by rw [hm]; exact h) hlen

theorem writes_putWord {size : Nat} (h : gpa + n ≤ size) :
    Writes size (fun m => b.putWord m gpa n v) fun _ => [⟨gpa, Words.le n v⟩] := fun m hm => putWord_eq (by rw [hm]; exact h)

end Backend

/-! ### The entries -/

def directoryEntry (base k : Nat) : Patch := ⟨base + 2 * pageSize + k * 8, Words.le 8 (k * 0x200000 ||| hugeFlags)⟩

def pointerEntry (base i : Nat) : Patch :=
  ⟨base + pageSize + i * 8, Words.le 8 (base + 2 * pageSize + i * pageSize ||| tableFlags)⟩

def rootEntry (base : Nat) : Patch := ⟨base, Words.le 8 (base + pageSize ||| tableFlags)⟩

/-- All entries, in the order in which they are written. --/
def pageTablePatches (base : Nat) : List Patch :=
  [rootEntry base] ++ (List.range 4).flatMap fun i =>
    [pointerEntry base i] ++ (List.range 512).map fun j => directoryEntry base (i * 512 + j)

theorem mem_pageTablePatches {base : Nat} {p : Patch} : p ∈ pageTablePatches base ↔
    p = rootEntry base ∨ (∃ i < 4, p = pointerEntry base i) ∨ ∃ k < 2048, p = directoryEntry base k := by
  simp only [pageTablePatches, List.singleton_append, List.mem_cons, List.mem_flatMap, List.mem_range, List.mem_map]
  constructor
  · rintro (rfl | ⟨i, hi, rfl | ⟨j, hj, rfl⟩⟩)
    · exact Or.inl rfl
    · exact Or.inr (Or.inl ⟨i, hi, rfl⟩)
    · exact Or.inr (Or.inr ⟨i * 512 + j, by omega, rfl⟩)
  · rintro (rfl | ⟨i, hi, rfl⟩ | ⟨k, hk, rfl⟩)
    · exact Or.inl rfl
    · exact Or.inr ⟨i, hi, Or.inl rfl⟩
    · exact Or.inr ⟨k / 512, by omega, Or.inr ⟨k % 512, Nat.mod_lt _ (by decide), by rw [Nat.div_add_mod']⟩⟩

theorem rootEntry_inside (base : Nat) : (rootEntry base).Inside base (base + pageSize) := by
  simp only [Patch.Inside, rootEntry, Words.length_le, pageSize]
  omega

theorem pointerEntry_inside (base : Nat) {i : Nat} (hi : i < 4) :
    (pointerEntry base i).Inside (base + pageSize) (base + 2 * pageSize) := by
  simp only [Patch.Inside, pointerEntry, Words.length_le, pageSize]
  omega

theorem directoryEntry_inside (base : Nat) {k : Nat} (hk : k < 2048) :
    (directoryEntry base k).Inside (base + 2 * pageSize) (base + 6 * pageSize) := by
  simp only [Patch.Inside, directoryEntry, Words.length_le, pageSize]
  omega

theorem pageTablePatches_inside {base : Nat} {p : Patch} (hp : p ∈ pageTablePatches base) :
    p.Inside base (base + 6 * pageSize) := by
  have hroot := rootEntry_inside base
  rcases mem_pageTablePatches.mp hp with rfl | ⟨i, hi, rfl⟩ | ⟨k, hk, rfl⟩
  · exact ⟨hroot.1, by have := hroot.2; omega⟩
  · have hin := pointerEntry_inside base hi
    exact ⟨by have := hin.1; omega, by have := hin.2; omega⟩
  · have hin := directoryEntry_inside base hk
    exact ⟨by have := hin.1; omega, hin.2⟩

/-- Each entry is the only one in its range. --/
theorem pageTablePatches_separate (base : Nat) : Patch.Separate (pageTablePatches base) := by
  intro p hp q hq
  have hroot := rootEntry_inside base
  have hpointers : ∀ {i}, i < 4 → ∀ {j}, j < 4 → pointerEntry base j = pointerEntry base i ∨
      (pointerEntry base j).Apart (pointerEntry base i) := by
    intro i hi j hj
    rcases Nat.decEq j i with hne | rfl
    · refine Or.inr ?_
      simp only [Patch.Apart, pointerEntry, Words.length_le]
      omega
    · exact Or.inl rfl
  have hentries : ∀ {k l}, directoryEntry base l = directoryEntry base k ∨
      (directoryEntry base l).Apart (directoryEntry base k) := by
    intro k l
    rcases Nat.decEq l k with hne | rfl
    · refine Or.inr ?_
      simp only [Patch.Apart, directoryEntry, Words.length_le]
      omega
    · exact Or.inl rfl
  rcases mem_pageTablePatches.mp hp with rfl | ⟨i, hi, rfl⟩ | ⟨k, hk, rfl⟩ <;>
    rcases mem_pageTablePatches.mp hq with rfl | ⟨j, hj, rfl⟩ | ⟨l, hl, rfl⟩
  · exact Or.inl rfl
  · exact Or.inr ((pointerEntry_inside base hj).apart hroot (Or.inr (Nat.le_refl _)))
  · exact Or.inr ((directoryEntry_inside base hl).apart hroot (Or.inr (by simp only [pageSize]; omega)))
  · exact Or.inr (hroot.apart (pointerEntry_inside base hi) (Or.inl (Nat.le_refl _)))
  · exact hpointers hi hj
  · exact Or.inr ((directoryEntry_inside base hl).apart (pointerEntry_inside base hi) (Or.inr (Nat.le_refl _)))
  · exact Or.inr (hroot.apart (directoryEntry_inside base hk) (Or.inl (by simp only [pageSize]; omega)))
  · exact Or.inr ((pointerEntry_inside base hj).apart (directoryEntry_inside base hk) (Or.inl (Nat.le_refl _)))
  · exact hentries

namespace Backend
variable {b : Backend} {mem : ByteStore} {base : Nat}

theorem writes_directory {size i j : Nat} (hi : i < 4) (hj : j < 512) (h : base + 6 * pageSize ≤ size) :
    Writes size (fun m => b.putWord m (base + 2 * pageSize + i * pageSize + j * 8) 8 ((i * 512 + j) * 0x200000 ||| hugeFlags))
      fun _ => [directoryEntry base (i * 512 + j)] := by
  simp only [pageSize] at h
  have hoff : base + 2 * pageSize + i * pageSize + j * 8 = base + 2 * pageSize + (i * 512 + j) * 8 := by
    simp only [pageSize]
    omega
  rw [hoff]
  exact writes_putWord (by simp only [pageSize]; omega)

theorem writes_pageDirectory {size i : Nat} (hi : i < 4) (h : base + 6 * pageSize ≤ size) :
    Writes size (b.buildPageDirectory (base + 2 * pageSize + i * pageSize) i) fun _ =>
      (List.range 512).map fun j => directoryEntry base (i * 512 + j) := by
  have hround : ∀ j ∈ List.range 512, Writes size
      (fun m => b.putWord m (base + 2 * pageSize + i * pageSize + j * 8) 8 ((i * 512 + j) * 0x200000 ||| hugeFlags))
      fun _ => [directoryEntry base (i * 512 + j)] := fun j hj => writes_directory hi (List.mem_range.mp hj) h
  rw [List.map_eq_flatMap]
  exact Writes.foldlM hround

theorem writes_pageTables {size : Nat} (h : base + 6 * pageSize ≤ size) :
    Writes size (fun m => b.buildPageTables m base) fun _ => pageTablePatches base := by
  have hround : ∀ i ∈ List.range 4, Writes size
      (fun m => b.putWord m (base + pageSize + i * 8) 8 (base + 2 * pageSize + i * pageSize ||| tableFlags) >>=
        b.buildPageDirectory (base + 2 * pageSize + i * pageSize) i)
      fun _ => [pointerEntry base i] ++ (List.range 512).map fun j => directoryEntry base (i * 512 + j) := by
    intro i hi
    have hi := List.mem_range.mp hi
    have hpointer : Writes size
        (fun m => b.putWord m (base + pageSize + i * 8) 8 (base + 2 * pageSize + i * pageSize ||| tableFlags))
        fun _ => [pointerEntry base i] := writes_putWord (by simp only [pageSize] at h ⊢; omega)
    have hboth := hpointer.bind (writes_pageDirectory (b := b) hi h)
    exact hboth
  have hroot : Writes size (fun m => b.putWord m base 8 (base + pageSize ||| tableFlags)) fun _ => [rootEntry base] :=
    writes_putWord (by simp only [pageSize] at h; omega)
  have hall := hroot.bind (Writes.foldlM hround)
  exact hall

end Backend

/-! ### The translation -/

/-- The entries of the tables. --/
structure Tables (mem : ByteStore) (base : Nat) : Prop where
  root : mem.word base 8 = base + pageSize + tableFlags
  pointers : ∀ i < 4, mem.word (base + pageSize + i * 8) 8 = base + 2 * pageSize + i * pageSize + tableFlags
  directories : ∀ k < 2048, mem.word (base + 2 * pageSize + k * 8) 8 = k * 2 ^ 21 + hugeFlags

section
variable {mem : ByteStore} {base v : Nat}

theorem or_tableFlags {a : Nat} (h : a % pageSize = 0) : a ||| tableFlags = a + tableFlags := by
  obtain ⟨k, rfl⟩ := Nat.dvd_of_mod_eq_zero h
  rw [Nat.mul_comm, show pageSize = 2 ^ 12 from rfl]
  exact or_flags 12 (by decide)

/-- Where the entries are, there are the tables. --/
theorem tables_of_holds (hholds : mem.Holds (pageTablePatches base)) (hbase : base % pageSize = 0)
    (hsmall : base + 6 * pageSize ≤ 2 ^ 52) : Tables mem base := by
  have hword : ∀ {off v}, ⟨off, Words.le 8 v⟩ ∈ pageTablePatches base → v < 256 ^ 8 → mem.word off 8 = v :=
    fun hmem hv => hholds.word hmem hv
  refine ⟨?_, fun i hi => ?_, fun k hk => ?_⟩
  · have hor : base + pageSize ||| tableFlags = base + pageSize + tableFlags :=
      or_tableFlags (by simp only [pageSize] at hbase ⊢; omega)
    rw [← hor]
    refine hword (mem_pageTablePatches.mpr (Or.inl rfl)) ?_
    rw [hor]
    simp only [pageSize, tableFlags] at hsmall ⊢
    omega
  · have hor : base + 2 * pageSize + i * pageSize ||| tableFlags = base + 2 * pageSize + i * pageSize + tableFlags :=
      or_tableFlags (by simp only [pageSize] at hbase ⊢; omega)
    rw [← hor]
    refine hword (mem_pageTablePatches.mpr (Or.inr (Or.inl ⟨i, hi, rfl⟩))) ?_
    rw [hor]
    simp only [pageSize, tableFlags] at hsmall ⊢
    omega
  · have hor : k * 0x200000 ||| hugeFlags = k * 2 ^ 21 + hugeFlags := or_flags 21 (by decide)
    rw [← hor]
    refine hword (mem_pageTablePatches.mpr (Or.inr (Or.inr ⟨k, hk, rfl⟩))) ?_
    rw [hor]
    simp only [hugeFlags]
    omega

/-- The page of 2 MiB that an address is in. --/
theorem Tables.walk_directory (h : Tables mem base) (hv : v < 2 ^ 32) :
    walk mem 1 (base + 2 * pageSize + v / 2 ^ 30 * pageSize) v = some ⟨v, true, false⟩ := by
  have hindex : base + 2 * pageSize + v / 2 ^ 30 * pageSize + 8 * (v / 2 ^ 21 % 512) =
      base + 2 * pageSize + v / 2 ^ 21 * 8 := by
    simp only [pageSize]
    omega
  have hword := h.directories (v / 2 ^ 21) (by omega)
  rw [← hindex] at hword
  have hwalk : walk mem 1 (base + 2 * pageSize + v / 2 ^ 30 * pageSize) v =
      some ⟨v / 2 ^ 21 * 2 ^ 21 + v % 2 ^ 21, hugeFlags.testBit 1, hugeFlags.testBit 2⟩ :=
    walk_large (by decide) (by decide) hword (by decide) (by simp only [hugeFlags]; omega) (by decide) (by decide)
  rw [hwalk, Nat.div_add_mod']
  rfl

theorem Tables.walk_pointers (h : Tables mem base) (hbase : base % pageSize = 0) (hsmall : base + 6 * pageSize ≤ 2 ^ 52)
    (hv : v < 2 ^ 32) : walk mem 2 (base + pageSize) v = some ⟨v, true, false⟩ := by
  have hnext : (base / 2 ^ 12 + 2 + v / 2 ^ 30) * 2 ^ 12 = base + 2 * pageSize + v / 2 ^ 30 * pageSize := by
    simp only [pageSize] at hbase ⊢
    omega
  have hword : mem.word (base + pageSize + 8 * (v / 2 ^ 30 % 512)) 8 =
      (base / 2 ^ 12 + 2 + v / 2 ^ 30) * 2 ^ 12 + tableFlags := by
    have hindex : base + pageSize + 8 * (v / 2 ^ 30 % 512) = base + pageSize + v / 2 ^ 30 * 8 := by omega
    rw [hindex, hnext]
    exact h.pointers (v / 2 ^ 30) (by omega)
  have hfit : (base / 2 ^ 12 + 2 + v / 2 ^ 30) * 2 ^ 12 + tableFlags < 2 ^ 52 := by
    rw [hnext]
    simp only [pageSize, tableFlags] at hsmall ⊢
    omega
  have hwalk : walk mem 2 (base + pageSize) v = _ := walk_table (by decide) hword (by decide) hfit (by decide) (by decide)
  rw [hwalk, hnext, h.walk_directory hv]
  rfl

/-- An address below 512 GiB is looked up in the one table of the third level. --/
theorem Tables.translate_eq (h : Tables mem base) (hbase : base % pageSize = 0) (hsmall : base + 6 * pageSize ≤ 2 ^ 52)
    (hv : v < 2 ^ 39) : translate mem base v = walk mem 2 (base + pageSize) v := by
  have hnext : (base / 2 ^ 12 + 1) * 2 ^ 12 = base + pageSize := by
    simp only [pageSize] at hbase ⊢
    omega
  have hword : mem.word (base + 8 * (v / 2 ^ 39 % 512)) 8 = (base / 2 ^ 12 + 1) * 2 ^ 12 + tableFlags := by
    have hindex : base + 8 * (v / 2 ^ 39 % 512) = base := by omega
    rw [hindex, hnext]
    exact h.root
  have hfit : (base / 2 ^ 12 + 1) * 2 ^ 12 + tableFlags < 2 ^ 52 := by
    rw [hnext]
    simp only [pageSize, tableFlags] at hsmall ⊢
    omega
  have hcr3 : address 12 base = base := by
    simp only [pageSize] at hbase hsmall
    exact address_of_aligned (by omega) hbase
  have hwalk : walk mem 3 base v = _ := walk_table (by decide) hword (by decide) hfit (by decide) (by decide)
  rw [Paging.translate, hcr3, hwalk, hnext]
  cases walk mem 2 (base + pageSize) v with
  | none => rfl
  | some p => rfl

/-- An address below 4 GiB is in the page of its own number. --/
theorem Tables.translate (h : Tables mem base) (hbase : base % pageSize = 0) (hsmall : base + 6 * pageSize ≤ 2 ^ 52)
    (hv : v < 2 ^ 32) : translate mem base v = some ⟨v, true, false⟩ := by
  rw [h.translate_eq hbase hsmall (by omega), h.walk_pointers hbase hsmall hv]

/-- Behind the entries of the tables there is nothing. --/
structure Ends (mem : ByteStore) (base : Nat) : Prop where
  root : ∀ i, 1 ≤ i → i < 512 → mem.word (base + 8 * i) 8 = 0
  pointers : ∀ i, 4 ≤ i → i < 512 → mem.word (base + pageSize + 8 * i) 8 = 0

theorem Tables.translate_none (h : Tables mem base) (hends : Ends mem base) (hbase : base % pageSize = 0)
    (hsmall : base + 6 * pageSize ≤ 2 ^ 52) (hv : 2 ^ 32 ≤ v) (hlt : v < 2 ^ 48) : Paging.translate mem base v = none := by
  rcases Nat.lt_or_ge v (2 ^ 39) with hlow | hhigh
  · rw [h.translate_eq hbase hsmall hlow]
    exact walk_none (by decide) (entry_none (hends.pointers (v / 2 ^ 30 % 512) (by omega) (by omega)))
  · have hcr3 : address 12 base = base := by
      simp only [pageSize] at hbase hsmall
      exact address_of_aligned (by omega) hbase
    rw [Paging.translate, hcr3]
    exact walk_none (by decide) (entry_none (hends.root (v / 2 ^ 39 % 512) (by omega) (by omega)))

theorem byte_pageTables {i : Nat} (hroot : ¬ByteStore.Within base 8 i) (hpointers : ¬ByteStore.Within (base + pageSize) 32 i)
    (hdirectories : ¬ByteStore.Within (base + 2 * pageSize) (4 * pageSize) i) :
    (mem.patch (pageTablePatches base)).byte i = mem.byte i := by
  refine ByteStore.byte_patch fun p hp hw => ?_
  rcases mem_pageTablePatches.mp hp with rfl | ⟨j, hj, rfl⟩ | ⟨k, hk, rfl⟩
  · exact hroot hw
  · simp only [pointerEntry, Words.length_le, ByteStore.Within] at hw hpointers
    omega
  · simp only [directoryEntry, Words.length_le, ByteStore.Within, pageSize] at hw hdirectories
    omega

theorem ends_of_patch (hzero : ∀ i, ByteStore.Within base (2 * pageSize) i → mem.byte i = 0) :
    Ends (mem.patch (pageTablePatches base)) base := by
  refine ⟨fun i h1 hi => ByteStore.word_zero fun j hj => ?_, fun i h4 hi => ByteStore.word_zero fun j hj => ?_⟩
  all_goals simp only [ByteStore.Within, pageSize] at hj hzero
  all_goals rw [byte_pageTables (by simp only [ByteStore.Within]; omega) (by simp only [ByteStore.Within, pageSize]; omega)
    (by simp only [ByteStore.Within, pageSize]; omega)]
  all_goals exact hzero j (by omega)

/-- The guest starts with each address below 4 GiB at its own place, which it may read and write but not as a user. Where the
    memory was zero before, no other address leads anywhere. --/
theorem page_tables (b : Backend) (mem : ByteStore) (base : Nat) (hbase : base % pageSize = 0)
    (hfit : base + 6 * pageSize ≤ mem.size) (hsize : mem.size ≤ 2 ^ 32) : ∃ m, b.buildPageTables mem base = .ok m ∧
      (∀ v < 2 ^ 32, Paging.translate m base v = some ⟨v, true, false⟩) ∧
      ((∀ i, ByteStore.Within base (2 * pageSize) i → mem.byte i = 0) →
        ∀ v, 2 ^ 32 ≤ v → v < 2 ^ 48 → Paging.translate m base v = none) ∧
      ByteStore.AgreeOn (fun i => ¬ByteStore.Within base (6 * pageSize) i) mem m := by
  have hsmall : base + 6 * pageSize ≤ 2 ^ 52 := by omega
  have hholds := ByteStore.holds_patch (s := mem) (pageTablePatches_separate base) fun p hp =>
    Nat.le_trans (pageTablePatches_inside hp).2 hfit
  have htables := tables_of_holds hholds hbase hsmall
  have hwrites : b.buildPageTables mem base = .ok (mem.patch (pageTablePatches base)) :=
    Backend.writes_pageTables hfit mem rfl
  refine ⟨_, hwrites, fun v hv => htables.translate hbase hsmall hv, fun hzero v hv hlt => ?_,
    ByteStore.size_patch, fun i hi => byte_pageTables ?_ ?_ ?_⟩
  · exact htables.translate_none (ends_of_patch hzero) hbase hsmall hv hlt
  all_goals simp only [ByteStore.Within, pageSize] at hi ⊢
  all_goals omega

theorem page_tables_one_mib : ∃ m, Backend.kvm.buildPageTables ⟨0x100000, fun _ => 0⟩ kPageTableBase = .ok m ∧
    Paging.translate m kPageTableBase 0xD0000000 = some ⟨0xD0000000, true, false⟩ ∧
    Paging.translate m kPageTableBase 0x100000000 = none := by
  obtain ⟨m, hm, hlow, hhigh, -⟩ := page_tables .kvm ⟨0x100000, fun _ => 0⟩ kPageTableBase (by decide) (by decide) (by decide)
  exact ⟨m, hm, hlow _ (by decide), hhigh (fun _ _ => rfl) _ (by decide) (by decide)⟩

end
end NodeVmm
