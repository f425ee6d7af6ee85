import Mathlib.Data.List.Perm.Subperm
import Mathlib.Order.Basic
import NodeVmm.RamSnapshot

/-! A restored snapshot has the memory of the moment of its delta: the base file gives the memory of before, the dirty log
    has every page changed since, and the delta brings those pages. -/

namespace NodeVmm.Kvm
open Checked

/-! ### The dirty log -/

/-- The bit of the page is set. --/
def Dirty (bitmap : List UInt64) (page : Nat) : Prop := (bitmap.getD (page / 64) 0).toNat.testBit (page % 64) = true

section Scan
variable {pageCount wordIndex rounds page : Nat} {word : UInt64}

theorem lowestBit_ctzll (hne : word ≠ 0) : Words.LowestBit word.toNat (ctzll word) :=
  Words.lowestBit_ctz word.toNat_lt fun h => hne (UInt64.toNat_inj.mp h)

theorem testBit_rest (hne : word ≠ 0) (i : Nat) :
    (word &&& (word - 1)).toNat.testBit i = (word.toNat.testBit i && decide (i ≠ ctzll word)) := by
  have hpos : 1 ≤ word.toNat := Nat.one_le_iff_ne_zero.mpr fun h => hne (UInt64.toNat_inj.mp h)
  have hpred : (word - 1).toNat = word.toNat - 1 := UInt64.toNat_sub_of_le _ _ hpos
  rw [UInt64.toNat_and, hpred]
  exact Words.testBit_and_pred (lowestBit_ctzll hne) i

theorem lt_of_testBit {i : Nat} (h : word.toNat.testBit i = true) : i < 64 := by
  by_contra hge
  have hlt : word.toNat < 2 ^ i :=
    Nat.lt_of_lt_of_le word.toNat_lt (Nat.pow_le_pow_right Nat.two_pos (Nat.le_of_not_lt hge))
  rw [Nat.testBit_lt_two_pow hlt] at h
  exact Bool.false_ne_true h

/-- There is a round for each bit that may still be set. --/
def Enough (rounds : Nat) (word : UInt64) : Prop := ∀ i, word.toNat.testBit i = true → 64 ≤ rounds + i

theorem Enough.rest (h : Enough (rounds + 1) word) (hne : word ≠ 0) : Enough rounds (word &&& (word - 1)) := by
  intro i hi
  have hlow := lowestBit_ctzll hne
  rw [testBit_rest hne, Bool.and_eq_true, decide_eq_true_eq] at hi
  have hfirst := h _ hlow.testBit
  have hle := hlow.le i hi.1
  omega

theorem mem_scanWord : ∀ {rounds : Nat} {word : UInt64}, Enough rounds word →
    (page ∈ scanWord pageCount wordIndex rounds word ↔
      page < pageCount ∧ ∃ i, word.toNat.testBit i = true ∧ page = wordIndex * 64 + i) := by
  intro rounds
  induction rounds with
  | zero =>
    intro word henough
    refine iff_of_false List.not_mem_nil ?_
    rintro ⟨-, i, hi, -⟩
    have hle := henough i hi
    have hlt := lt_of_testBit hi
    omega
  | succ rounds ih =>
    intro word henough
    rcases eq_or_ne word 0 with rfl | hne
    · simp [scanWord]
    · have hmem := ih (henough.rest hne)
      simp only [testBit_rest hne, Bool.and_eq_true, decide_eq_true_eq] at hmem
      have hcons : page ∈ scanWord pageCount wordIndex (rounds + 1) word ↔
          (page < pageCount ∧ page = wordIndex * 64 + ctzll word) ∨
            page ∈ scanWord pageCount wordIndex rounds (word &&& (word - 1)) := by
        simp only [scanWord, if_neg hne]
        split_ifs with hlt
        · rw [List.mem_cons]
          exact or_congr_left ⟨fun h => ⟨h ▸ hlt, h⟩, fun h => h.2⟩
        · refine (or_iff_right ?_).symm
          rintro ⟨hpage, rfl⟩
          exact hlt hpage
      rw [hcons, hmem]
      constructor
      · rintro (⟨hlt, heq⟩ | ⟨hlt, i, ⟨hi, -⟩, heq⟩)
        · exact ⟨hlt, _, (lowestBit_ctzll hne).testBit, heq⟩
        · exact ⟨hlt, i, hi, heq⟩
      · rintro ⟨hlt, i, hi, heq⟩
        rcases eq_or_ne i (ctzll word) with rfl | hine
        · exact Or.inl ⟨hlt, heq⟩
        · exact Or.inr ⟨hlt, i, ⟨hi, hine⟩, heq⟩

theorem pairwise_scanWord : ∀ {rounds : Nat} {word : UInt64}, Enough rounds word →
    (scanWord pageCount wordIndex rounds word).Pairwise (· < ·) := by
  intro rounds
  induction rounds with
  | zero =>
    intro word _
    exact List.Pairwise.nil
  | succ rounds ih =>
    intro word henough
    rcases eq_or_ne word 0 with rfl | hne
    · simp [scanWord]
    · simp only [scanWord, if_neg hne]
      split_ifs with hlt
      · refine List.pairwise_cons.mpr ⟨fun page hpage => ?_, ih (henough.rest hne)⟩
        obtain ⟨-, i, hi, rfl⟩ := (mem_scanWord (henough.rest hne)).mp hpage
        rw [testBit_rest hne, Bool.and_eq_true, decide_eq_true_eq] at hi
        exact Nat.add_lt_add_left (Nat.lt_of_le_of_ne ((lowestBit_ctzll hne).le i hi.1) hi.2.symm) _
      · exact ih (henough.rest hne)

theorem enough_all : Enough 64 word := fun i _ => Nat.le_add_right 64 i

end Scan

section DirtyPages
variable {memSize page : Nat} {bitmap : List UInt64}

/-- The pages are those below the page count whose bit is set. --/
theorem mem_getDirtyPages : page ∈ getDirtyPages memSize bitmap ↔ page < memSize / kSnapshotPageSize ∧ Dirty bitmap page := by
  simp only [getDirtyPages, List.mem_flatMap, Prod.exists, mem_scanWord enough_all, List.mem_zipIdx_iff_getElem?]
  constructor
  · rintro ⟨word, wordIndex, hword, hlt, i, hi, rfl⟩
    have hi64 := lt_of_testBit hi
    have hindex : (wordIndex * 64 + i) / 64 = wordIndex := by omega
    have hbit : (wordIndex * 64 + i) % 64 = i := by omega
    refine ⟨hlt, ?_⟩
    rw [Dirty, hindex, hbit, List.getD_eq_getElem?_getD, hword]
    exact hi
  · rintro ⟨hlt, hdirty⟩
    rw [Dirty, List.getD_eq_getElem?_getD] at hdirty
    rcases hword : bitmap[page / 64]? with _ | word
    · rw [hword, Option.getD_none, UInt64.toNat_zero, Nat.zero_testBit] at hdirty
      exact absurd hdirty Bool.false_ne_true
    · rw [hword] at hdirty
      exact ⟨word, page / 64, hword, hlt, page % 64, hdirty, (Nat.div_add_mod' page 64).symm⟩

theorem pairwise_getDirtyPages : (getDirtyPages memSize bitmap).Pairwise (· < ·) := by
  refine List.pairwise_flatMap.mpr ⟨fun _ _ => pairwise_scanWord enough_all, ?_⟩
  have hindex : bitmap.zipIdx.Pairwise fun a b => a.2 < b.2 := by
    rw [← List.pairwise_map (f := Prod.snd) (R := (· < ·)), List.zipIdx_map_snd]
    exact List.pairwise_lt_range'
  refine hindex.imp ?_
  rintro ⟨word, k⟩ ⟨word', k'⟩ hlt page hpage page' hpage'
  obtain ⟨-, i, hi, rfl⟩ := (mem_scanWord enough_all).mp hpage
  obtain ⟨-, i', -, rfl⟩ := (mem_scanWord enough_all).mp hpage'
  have hi64 := lt_of_testBit hi
  simp only at hlt ⊢
  omega

end DirtyPages

/-! ### The sparse memory file -/

section Sparse
variable {src file mem : ByteStore} {n k i page : Nat}

theorem within_page : ByteStore.Within (page * kSnapshotPageSize) kSnapshotPageSize i ↔ i / kSnapshotPageSize = page := by
  simp only [ByteStore.Within, kSnapshotPageSize]
  omega

/-- The file has the pages below `n`, and zeros from there on. --/
structure Copied (src : ByteStore) (n : Nat) (file : ByteStore) : Prop where
  size : file.size = src.size
  byte : ∀ i, i < src.size → file.byte i = if i / kSnapshotPageSize < n then src.byte i else 0

theorem Copied.step {count : Nat} (h : Copied src n file) : Copied src (n + 1) (writeSparsePage src (file, count) n).1 := by
  have hsplit : ∀ i, i / kSnapshotPageSize < n + 1 ↔ i / kSnapshotPageSize < n ∨ i / kSnapshotPageSize = n :=
    fun _ => Nat.lt_succ_iff_lt_or_eq
  have hrange : ∀ i, i < src.size → i / kSnapshotPageSize = n →
      ByteStore.Within (n * kSnapshotPageSize) (min kSnapshotPageSize (src.size - n * kSnapshotPageSize)) i := by
    intro i hi hpage
    obtain ⟨hle, hlt⟩ := within_page.mpr hpage
    exact ⟨hle, by omega⟩
  simp only [writeSparsePage]
  split_ifs with hzero
  · refine ⟨h.size, fun i hi => ?_⟩
    simp only [h.byte i hi, hsplit]
    split_ifs with hlt hor hor
    · rfl
    · exact absurd (Or.inl hlt) hor
    · -- a page that is left out is all zero
      have hin := hrange i hi (hor.resolve_left hlt)
      have hall := List.all_eq_true.mp hzero (src.byte i) ?_
      · exact (of_decide_eq_true hall).symm
      · refine List.mem_map.mpr ⟨i - n * kSnapshotPageSize, List.mem_range.mpr ?_, ?_⟩
        · have hlt := hin.2
          have hle := hin.1
          omega
        · rw [Nat.add_sub_cancel' hin.1]
    · rfl
  · refine ⟨h.size, fun i hi => ?_⟩
    by_cases hpage : i / kSnapshotPageSize = n
    · rw [ByteStore.byte_write_read (hrange i hi hpage), if_pos ((hsplit i).mpr (Or.inr hpage))]
    · have hnot : ¬ByteStore.Within (n * kSnapshotPageSize)
          (src.read (n * kSnapshotPageSize) (min kSnapshotPageSize (src.size - n * kSnapshotPageSize))).length i := by
        rw [ByteStore.length_read]
        intro hin
        exact hpage (within_page.mp ⟨hin.1, Nat.lt_of_lt_of_le hin.2 (Nat.add_le_add_left (Nat.min_le_left _ _) _)⟩)
      rw [ByteStore.byte_write_of_not_within hnot, h.byte i hi]
      simp only [hsplit, hpage, or_false]

theorem copied_range (src : ByteStore) (n : Nat) : Copied src n ((List.range n).foldl (writeSparsePage src) (truncated src.size, 0)).1 := by
  induction n with
  | zero => exact ⟨rfl, fun i _ => (if_neg (Nat.not_lt_zero _)).symm⟩
  | succ n ih =>
    rw [List.range_succ, List.foldl_append, List.foldl_cons, List.foldl_nil]
    exact ih.step

/-- The sparse file is the memory. --/
theorem writeSparseMemoryFile_agree (src : ByteStore) : src.AgreeOn (· < src.size) (writeSparseMemoryFile src).1 := by
  have h := copied_range src ((src.size + kSnapshotPageSize - 1) / kSnapshotPageSize)
  refine ⟨h.size, fun i hi => (h.byte i hi).trans (if_pos ?_)⟩
  simp only [kSnapshotPageSize]
  omega

end Sparse

/-! ### The delta file -/

section Delta
variable {src mem : ByteStore} {pageCount page i : Nat} {pages : List Nat} {file : List UInt8}

/-- The page of `src` in `mem`. --/
def copyPage (src mem : ByteStore) (page : Nat) : ByteStore :=
  mem.write (page * kSnapshotPageSize) (src.read (page * kSnapshotPageSize) kSnapshotPageSize)

theorem byte_copyPages : (pages.foldl (copyPage src) mem).byte i =
    if i / kSnapshotPageSize ∈ pages then src.byte i else mem.byte i := by
  induction pages generalizing mem with
  | nil => rfl
  | cons page pages ih =>
    rw [List.foldl_cons, ih]
    by_cases hpage : i / kSnapshotPageSize = page
    · have hbyte : (copyPage src mem page).byte i = src.byte i := ByteStore.byte_write_read (within_page.mpr hpage)
      rw [hbyte, ite_self, if_pos (List.mem_cons.mpr (Or.inl hpage))]
    · have hbyte : (copyPage src mem page).byte i = mem.byte i := by
        refine ByteStore.byte_write_of_not_within fun hin => hpage (within_page.mp ?_)
        rwa [ByteStore.length_read] at hin
      simp only [hbyte, List.mem_cons, hpage, false_or]

theorem size_copyPages : (pages.foldl (copyPage src) mem).size = mem.size := by
  induction pages generalizing mem with
  | nil => rfl
  | cons page pages ih => exact ih

/-- A page below the page count is in memory, and its offset does not wrap. --/
theorem page_inRange (hsize : mem.size < 2 ^ 64) (hpage : page < mem.size / kSnapshotPageSize) :
    pageOffset page = page * kSnapshotPageSize ∧ mem.InRange (pageOffset page) kSnapshotPageSize := by
  simp only [kSnapshotPageSize] at hpage
  have hoff : pageOffset page = page * kSnapshotPageSize := by
    simp only [pageOffset, kSnapshotPageSize]
    omega
  refine ⟨hoff, ?_⟩
  rw [hoff]
  simp only [ByteStore.InRange, kSnapshotPageSize]
  omega

/-- The entry of a page in the delta file. --/
def entry (src : ByteStore) (page : Nat) : List UInt8 :=
  Words.le 8 page ++ src.read (page * kSnapshotPageSize) kSnapshotPageSize

theorem writeDirtyPages_eq (hsize : src.size < 2 ^ 64) (hpages : ∀ page ∈ pages, page < src.size / kSnapshotPageSize) :
    writeDirtyPages src pages = .ok (pages.flatMap (entry src)) := by
  induction pages with
  | nil => rfl
  | cons page pages ih =>
    obtain ⟨hoff, hin⟩ := page_inRange hsize (hpages page List.mem_cons_self)
    have hentry : writeDirtyPage src page = .ok (entry src page) := by
      rw [writeDirtyPage, access, if_pos (decide_eq_true hin), hoff]
      rfl
    rw [writeDirtyPages, hentry, ih fun p hp => hpages p (List.mem_cons_of_mem page hp)]
    rfl

theorem readAll_append {front : List UInt8} {len : Nat} {what : String} (hlen : front.length = len) :
    readAll len (front ++ file) what = .ok (front, file) := by
  have hle : len ≤ (front ++ file).length := by
    rw [List.length_append, hlen]
    exact Nat.le_add_right _ _
  rw [readAll, if_pos hle, List.take_left' hlen, List.drop_left' hlen]

theorem applyDirtyPage_entry (src : ByteStore) (file : List UInt8) (hsize : mem.size < 2 ^ 64) (hpage : page < mem.size / kSnapshotPageSize) :
    applyDirtyPage (mem.size / kSnapshotPageSize) (entry src page ++ file, mem) = .ok (file, copyPage src mem page) := by
  obtain ⟨hoff, hin⟩ := page_inRange hsize hpage
  have hindex : Words.ofLe (Words.le 8 page) = page := by
    rw [Words.ofLe_le]
    simp only [kSnapshotPageSize] at hpage
    omega
  have hcheck : decide (page < mem.size / kSnapshotPageSize) = true := decide_eq_true hpage
  have haccess : decide (mem.InRange (page * kSnapshotPageSize) kSnapshotPageSize) = true := decide_eq_true (hoff ▸ hin)
  simp only [applyDirtyPage, entry, List.append_assoc, readAll_append Words.length_le, bind, Except.bind, hindex, check,
    hcheck, if_pos, access, haccess, readAll_append ByteStore.length_read, hoff]
  rfl

theorem applyDirtyPages_eq (src : ByteStore) (file : List UInt8) (hsize : mem.size < 2 ^ 64) (hpages : ∀ page ∈ pages, page < mem.size / kSnapshotPageSize) :
    applyDirtyPages (mem.size / kSnapshotPageSize) pages.length (pages.flatMap (entry src) ++ file, mem) =
      .ok (file, pages.foldl (copyPage src) mem) := by
  induction pages generalizing mem with
  | nil => rfl
  | cons page pages ih =>
    have hfirst := applyDirtyPage_entry src (pages.flatMap (entry src) ++ file) hsize (hpages page List.mem_cons_self)
    have hrest := @ih (copyPage src mem page) hsize fun p hp => hpages p (List.mem_cons_of_mem page hp)
    rw [List.flatMap_cons, List.append_assoc, List.length_cons, applyDirtyPages, hfirst]
    exact hrest

theorem length_toBytes {h : DirtySnapshotHeader} (hmagic : h.magic.length = 18) : h.toBytes.length = sizeofHeader := by
  simp [DirtySnapshotHeader.toBytes, hmagic, sizeofHeader]

/-- A header whose fields fit is read back. --/
theorem ofBytes_toBytes {h : DirtySnapshotHeader} (hmagic : h.magic.length = 18) (hversion : h.version < 2 ^ 32)
    (hpage : h.pageSize < 2 ^ 32) (hcount : h.pageCount < 2 ^ 64) (hdirty : h.dirtyPages < 2 ^ 64) :
    DirtySnapshotHeader.ofBytes h.toBytes = h := by
  obtain ⟨magic, version, pageSize, pageCount, dirtyPages⟩ := h
  simp only at hmagic hversion hpage hcount hdirty
  have hskip : ∀ {k : Nat}, 18 ≤ k → magic.drop k = [] := fun hk => List.drop_of_length_le (hmagic ▸ hk)
  have hword : ∀ {n v k : Nat}, n ≤ k → (Words.le n v).drop k = [] := fun hk =>
    List.drop_of_length_le (Words.length_le.symm ▸ hk)
  have hall : (Words.le 8 dirtyPages).take 8 = Words.le 8 dirtyPages := List.take_of_length_le (Nat.le_of_eq Words.length_le)
  simp [DirtySnapshotHeader.ofBytes, DirtySnapshotHeader.toBytes, List.drop_append, hmagic, hskip, hword, hall, Words.ofLe_le]
  exact ⟨hversion, hpage, hcount, hdirty⟩

/-- The delta of these pages brings them from the one memory into the other. --/
theorem apply_written (mem src : ByteStore) (hsize : mem.size < 2 ^ 64) (hsame : src.size = mem.size)
    (hpages : ∀ page ∈ pages, page < src.size / kSnapshotPageSize) (hlength : pages.length < 2 ^ 64) :
    ∃ delta, writeDirtySnapshotFile src pages = .ok delta ∧
      applyDirtySnapshotFile delta mem = .ok (pages.length, pages.foldl (copyPage src) mem) := by
  have hwrite := writeDirtyPages_eq (hsame ▸ hsize) hpages
  refine ⟨(dirtyHeader src.size pages).toBytes ++ pages.flatMap (entry src), ?_, ?_⟩
  · rw [writeDirtySnapshotFile, hwrite]
    rfl
  · have hmagic : (dirtyHeader src.size pages).magic.length = 18 := rfl
    have hcount : src.size / kSnapshotPageSize < 2 ^ 64 := Nat.lt_of_le_of_lt (Nat.div_le_self _ _) (hsame ▸ hsize)
    have hread : DirtySnapshotHeader.ofBytes (dirtyHeader src.size pages).toBytes = dirtyHeader src.size pages :=
      ofBytes_toBytes hmagic (show kDirtySnapshotVersion < 2 ^ 32 by decide) (show kSnapshotPageSize < 2 ^ 32 by decide)
        hcount hlength
    have happly := applyDirtyPages_eq src [] hsize (hsame ▸ hpages)
    rw [List.append_nil] at happly
    rw [applyDirtySnapshotFile, readAll_append (length_toBytes hmagic)]
    simp only [bind, Except.bind, hread]
    simp only [dirtyHeader, check, decide_true, if_true, hsame, happly]
    rfl

end Delta

/-! ### What a delta file can do -/

section Stays
variable {mem : ByteStore}

theorem stays_readAll {len : Nat} {file : List UInt8} {what : String} :
    Stays (readAll len file what) fun r => r.1.length = len := by
  rw [readAll]
  split_ifs with hle
  · exact .ok (List.length_take_of_le hle)
  · exact ⟨nofun, nofun⟩

/-- The memory with some whole pages of it written, in this order. --/
def PagesWritten (mem mem' : ByteStore) (n : Nat) : Prop :=
  ∃ entries : List (Nat × List UInt8), entries.length = n ∧
    (∀ e ∈ entries, e.1 < mem.size / kSnapshotPageSize ∧ e.2.length = kSnapshotPageSize) ∧
    mem' = entries.foldl (fun m e => m.write (e.1 * kSnapshotPageSize) e.2) mem

theorem stays_applyDirtyPage {file : List UInt8} (hsize : mem.size < 2 ^ 64) :
    Stays (applyDirtyPage (mem.size / kSnapshotPageSize) (file, mem)) fun s => PagesWritten mem s.2 1 := by
  refine stays_readAll.bind fun r _ => stays_check.bind fun _ hpage => ?_
  obtain ⟨hoff, hin⟩ := page_inRange hsize (of_decide_eq_true hpage)
  refine (stays_access (decide_eq_true hin)).bind fun _ _ => ?_
  refine stays_readAll.bind fun r' hlen => .ok ⟨[(Words.ofLe r.1, r'.1)], rfl, ?_, ?_⟩
  · intro e he
    rw [List.mem_singleton.mp he]
    exact ⟨of_decide_eq_true hpage, hlen⟩
  · rw [hoff]
    rfl

theorem PagesWritten.size {mem' : ByteStore} {n : Nat} (h : PagesWritten mem mem' n) : mem'.size = mem.size := by
  obtain ⟨entries, -, -, rfl⟩ := h
  exact List.foldlRecOn entries (motive := fun (m : ByteStore) => m.size = mem.size) _ rfl fun _ hm _ _ => hm

theorem PagesWritten.trans {mem' mem'' : ByteStore} {n k : Nat} (h : PagesWritten mem mem' n)
    (h' : PagesWritten mem' mem'' k) : PagesWritten mem mem'' (n + k) := by
  have hsize := h.size
  obtain ⟨entries, rfl, hentries, rfl⟩ := h
  obtain ⟨entries', rfl, hentries', rfl⟩ := h'
  refine ⟨entries ++ entries', List.length_append, fun e he => ?_, (List.foldl_append ..).symm⟩
  rcases List.mem_append.mp he with he | he
  · exact hentries e he
  · rw [← hsize]
    exact hentries' e he

theorem stays_applyDirtyPages {n : Nat} : ∀ {file : List UInt8} {mem : ByteStore}, mem.size < 2 ^ 64 →
    Stays (applyDirtyPages (mem.size / kSnapshotPageSize) n (file, mem)) fun s => PagesWritten mem s.2 n := by
  induction n with
  | zero =>
    intro file mem _
    exact .ok ⟨[], rfl, nofun, rfl⟩
  | succ n ih =>
    intro file mem hsize
    refine (stays_applyDirtyPage hsize).bind fun s hs => ?_
    obtain ⟨file', mem'⟩ := s
    have hrest := @ih file' mem' (hs.size.trans_lt hsize)
    rw [hs.size] at hrest
    refine ⟨hrest.1, fun t ht => ?_⟩
    rw [Nat.add_comm]
    exact hs.trans (hrest.2 t ht)

/-- Any delta file fails, or writes whole pages inside the guest's memory. --/
theorem stays_applyDirtySnapshotFile {file : List UInt8} (hsize : mem.size < 2 ^ 64) :
    Stays (applyDirtySnapshotFile file mem) fun r => PagesWritten mem r.2 r.1 := by
  refine stays_readAll.bind fun r _ => stays_check.bind fun _ _ => stays_check.bind fun _ _ =>
    stays_check.bind fun _ _ => stays_check.bind fun _ hcount => ?_
  rw [of_decide_eq_true hcount]
  exact (stays_applyDirtyPages hsize).bind fun s hs => .ok hs

end Stays

/-! ### Snapshots -/

/-- `after` differs from `before` on this page. --/
def Changed (before after : ByteStore) (page : Nat) : Prop :=
  ∃ i, i < before.size ∧ i / kSnapshotPageSize = page ∧ after.byte i ≠ before.byte i

theorem length_getDirtyPages_le {memSize : Nat} {bitmap : List UInt64} : (getDirtyPages memSize bitmap).length ≤ memSize := by
  have hnodup : (getDirtyPages memSize bitmap).Nodup := pairwise_getDirtyPages.imp Nat.ne_of_lt
  have hsub : getDirtyPages memSize bitmap ⊆ List.range (memSize / kSnapshotPageSize) := fun page hpage =>
    List.mem_range.mpr (mem_getDirtyPages.mp hpage).1
  calc (getDirtyPages memSize bitmap).length ≤ (List.range (memSize / kSnapshotPageSize)).length :=
        (List.subperm_of_subset hnodup hsub).length_le
    _ = memSize / kSnapshotPageSize := List.length_range
    _ ≤ memSize := Nat.div_le_self _ _

theorem restore_delta {before after : ByteStore} {bitmap : List UInt64} (hpages : kSnapshotPageSize ∣ before.size)
    (hsize : before.size < 2 ^ 64) (hsame : after.size = before.size)
    (hbitmap : ∀ page, Changed before after page → Dirty bitmap page) :
    ∃ delta base n mem, writeDirtySnapshotFile after (getDirtyPages after.size bitmap) = .ok delta ∧
      mapSnapshotRam (writeSparseMemoryFile before).1 before.size = .ok base ∧
      applyDirtySnapshotFile delta base = .ok (n, mem) ∧ after.AgreeOn (· < after.size) mem := by
  have hbase := writeSparseMemoryFile_agree before
  have hbound : ∀ page ∈ getDirtyPages after.size bitmap, page < after.size / kSnapshotPageSize := fun page hpage =>
    (mem_getDirtyPages.mp hpage).1
  obtain ⟨delta, hwrite, happly⟩ := apply_written (writeSparseMemoryFile before).1 after
    (hbase.size.trans_lt hsize) (hsame.trans hbase.size.symm) hbound
    (Nat.lt_of_le_of_lt length_getDirtyPages_le (hsame.trans_lt hsize))
  refine ⟨delta, _, _, _, hwrite, ?_, happly, ?_, fun i hi => ?_⟩
  · rw [mapSnapshotRam, check, if_pos (decide_eq_true hbase.size)]
    rfl
  · rw [size_copyPages, hbase.size, hsame]
  · have hi' : i < before.size := hsame ▸ hi
    rw [byte_copyPages, hbase.byte i hi']
    split_ifs with hdirty
    · rfl
    · by_contra hne
      refine hdirty (mem_getDirtyPages.mpr ⟨?_, hbitmap _ ⟨i, hi', rfl, Ne.symm hne⟩⟩)
      rw [hsame]
      exact Nat.div_lt_div_of_lt_of_dvd hpages hi'

/-- Base and delta give exactly the later memory; the dirty pages are those of the bitmap, in order; and no delta file
    reaches outside the guest's memory. --/
theorem snapshot_restore_exact :
    (∀ (before after : ByteStore) (bitmap : List UInt64), kSnapshotPageSize ∣ before.size → before.size < 2 ^ 64 →
      after.size = before.size → (∀ page, Changed before after page → Dirty bitmap page) →
      ∃ delta base n mem, writeDirtySnapshotFile after (getDirtyPages after.size bitmap) = .ok delta ∧
        mapSnapshotRam (writeSparseMemoryFile before).1 before.size = .ok base ∧
        applyDirtySnapshotFile delta base = .ok (n, mem) ∧ after.AgreeOn (· < after.size) mem) ∧
    (∀ (memSize : Nat) (bitmap : List UInt64), (getDirtyPages memSize bitmap).Pairwise (· < ·) ∧
      ∀ page, page ∈ getDirtyPages memSize bitmap ↔ page < memSize / kSnapshotPageSize ∧ Dirty bitmap page) ∧
    (∀ (file : List UInt8) (mem : ByteStore), mem.size < 2 ^ 64 →
      Stays (applyDirtySnapshotFile file mem) fun r => PagesWritten mem r.2 r.1) :=
  ⟨fun _ _ _ => restore_delta, fun _ _ => ⟨pairwise_getDirtyPages, fun _ => mem_getDirtyPages⟩,
    fun _ _ => stays_applyDirtySnapshotFile⟩

/-- Two pages, the second all zero. --/
def twoPages : ByteStore := ⟨2 * kSnapshotPageSize, fun i => if i < kSnapshotPageSize then 7 else 0⟩

theorem snapshot_restore_exact_two_pages :
    (∃ delta base n mem,
      writeDirtySnapshotFile (twoPages.write 4100 [9]) (getDirtyPages twoPages.size [2]) = .ok delta ∧
        mapSnapshotRam (writeSparseMemoryFile twoPages).1 twoPages.size = .ok base ∧
        applyDirtySnapshotFile delta base = .ok (n, mem) ∧
        (twoPages.write 4100 [9]).AgreeOn (· < twoPages.size) mem) ∧
      Stays (applyDirtySnapshotFile kDirtySnapshotMagic twoPages) fun r => PagesWritten twoPages r.2 r.1 := by
  have hchanged : ∀ page, Changed twoPages (twoPages.write 4100 [9]) page → Dirty [2] page := by
    rintro page ⟨i, -, rfl, hne⟩
    have hin : ByteStore.Within 4100 [(9 : UInt8)].length i := by
      by_contra hout
      exact hne (ByteStore.byte_write_of_not_within hout)
    obtain rfl : i = 4100 := Nat.le_antisymm (Nat.le_of_lt_succ hin.2) hin.1
    rw [Dirty]
    decide
  obtain ⟨hrestore, -, hstays⟩ := snapshot_restore_exact
  exact ⟨hrestore twoPages (twoPages.write 4100 [9]) [2] ⟨2, rfl⟩ (by decide) rfl hchanged,
    hstays kDirtySnapshotMagic twoPages (by decide)⟩

end NodeVmm.Kvm
