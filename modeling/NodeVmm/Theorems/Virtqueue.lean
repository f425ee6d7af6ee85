import Mathlib.Data.List.Nodup
import Mathlib.Data.List.Perm.Subperm
import NodeVmm.Virtqueue

/-! Facts about guest memory and the rings: which bytes `ptr` gives access to, what a walk reads, and what
    `push_used` stores. -/

namespace NodeVmm
open ByteStore

/-! ### Pointers into RAM -/

/-- The RAM offset `i` is one of the `len` bytes at the address `gpa`. --/
def Touches (b : Backend) (gpa : UInt64) (len i : Nat) : Prop := Within gpa.toNat len (b.ramBase + i)

instance (b : Backend) (gpa : UInt64) (len i : Nat) : Decidable (Touches b gpa len i) :=
  inferInstanceAs (Decidable (Within _ _ _))

/-- The `len` bytes at the address `gpa` are in RAM. --/
def GuestMemory.InRam (b : Backend) (m : GuestMemory) (gpa : UInt64) (len : Nat) : Prop :=
  b.ramBase ≤ gpa.toNat ∧ gpa.toNat + len ≤ b.ramBase + m.size

instance (b : Backend) (m : GuestMemory) (gpa : UInt64) (len : Nat) : Decidable (m.InRam b gpa len) :=
  inferInstanceAs (Decidable (_ ∧ _))

/-- The RAM offset of an address. --/
def Backend.offset (b : Backend) (gpa : UInt64) : Nat := gpa.toNat - b.ramBase

namespace GuestMemory
variable {b : Backend} {m m' : GuestMemory} {q : Queue} {gpa : UInt64} {len i : Nat}

theorem ptr_of_inRam (h : m.InRam b gpa len) : m.ptr b gpa len = .ok (b.offset gpa) := by
  obtain ⟨h1, h2⟩ := h
  cases b with
  | kvm =>
    simp only [Backend.ramBase] at h1 h2
    have : gpa.toNat ≤ m.size ∧ len ≤ m.size - gpa.toNat := by omega
    simp [ptr, this, Backend.offset, Backend.ramBase]
  | whp =>
    simp only [Backend.ramBase] at h1 h2
    rw [ptr, Backend.checkRange_of_le (by omega)]
    simp [Backend.offset, Backend.ramBase, bind, Except.bind, pure, Except.pure]
  | hvf =>
    have : Backend.hvf.ramBase ≤ gpa.toNat ∧ gpa.toNat - Backend.hvf.ramBase ≤ m.size ∧
        len ≤ m.size - (gpa.toNat - Backend.hvf.ramBase) := by omega
    rw [ptr, if_pos this]
    rfl

theorem ptr_of_not_inRam (h : ¬m.InRam b gpa len) : ∃ e, m.ptr b gpa len = .error e := by
  unfold InRam at h
  cases b with
  | kvm =>
    simp only [Backend.ramBase] at h
    have : ¬(gpa.toNat ≤ m.size ∧ len ≤ m.size - gpa.toNat) := by omega
    exact ⟨_, by rw [ptr, if_neg this]⟩
  | whp =>
    simp only [Backend.ramBase] at h
    have hgt : m.size < gpa.toNat + len := by omega
    obtain ⟨e, he⟩ := Backend.checkRange_of_gt (b := .whp) "guest memory" hgt
    exact ⟨e, by rw [ptr, he]; rfl⟩
  | hvf =>
    have : ¬(Backend.hvf.ramBase ≤ gpa.toNat ∧ gpa.toNat - Backend.hvf.ramBase ≤ m.size ∧
        len ≤ m.size - (gpa.toNat - Backend.hvf.ramBase)) := by omega
    exact ⟨_, by rw [ptr, if_neg this]⟩

theorem ptr_eq_ok {off : Nat} : m.ptr b gpa len = .ok off ↔ m.InRam b gpa len ∧ off = b.offset gpa := by
  by_cases h : m.InRam b gpa len
  · rw [ptr_of_inRam h]
    simp [h, eq_comm]
  · obtain ⟨e, he⟩ := ptr_of_not_inRam h
    rw [he]
    simp [h]

/-- The bytes that `ptr` gives access to are those of the address range. --/
theorem InRam.touches_iff (h : m.InRam b gpa len) {n : Nat} : Within (b.offset gpa) n i ↔ Touches b gpa n i := by
  have := h.1
  unfold Touches Within Backend.offset
  omega

theorem InRam.mono {n : Nat} (h : m.InRam b gpa len) (hn : n ≤ len) : m.InRam b gpa n := ⟨h.1, by have := h.2; omega⟩

/-- RAM ends far below the last address, so an address not far from one in RAM does not wrap. --/
theorem InRam.toNat_add (h : m.InRam b gpa len) {k : UInt64} (hk : k.toNat < 2 ^ 32) :
    (gpa + k).toNat = gpa.toNat + k.toNat := by
  have hfit := m.fits
  have hbase : b.ramBase ≤ 2 ^ 30 := by cases b <;> decide
  obtain ⟨h1, h2⟩ := h
  unfold size at h2
  rw [UInt64.toNat_add]
  omega

theorem InRam.add (h : m.InRam b gpa len) {k : UInt64} {n : Nat} (hk : k.toNat < 2 ^ 32) (hn : k.toNat + n ≤ len) :
    m.InRam b (gpa + k) n := by
  have := h.toNat_add hk
  obtain ⟨h1, h2⟩ := h
  unfold InRam
  omega

theorem InRam.offset_add (h : m.InRam b gpa len) {k : UInt64} (hk : k.toNat < 2 ^ 32) :
    b.offset (gpa + k) = b.offset gpa + k.toNat := by
  have := h.toNat_add hk
  have := h.1
  unfold Backend.offset
  omega

theorem inRam_congr (h : m'.size = m.size) : m'.InRam b gpa len ↔ m.InRam b gpa len := by
  unfold InRam
  rw [h]

theorem ptr_congr (h : m'.size = m.size) : m'.ptr b gpa len = m.ptr b gpa len := by
  cases b <;> simp [ptr, h]

/-! ### Walks -/

/-- The offset `i` belongs to an entry of the descriptor table. --/
def InDescTable (b : Backend) (q : Queue) (i : Nat) : Prop :=
  ∃ idx : UInt16, idx.toNat < q.size ∧ Touches b (q.descEntry idx) 16 i

theorem readDesc_congr {K : Nat → Prop} (h : AgreeOn K m.ram m'.ram) (hK : ∀ i, InDescTable b q i → K i)
    {idx : UInt16} : m'.readDesc b q idx = m.readDesc b q idx := by
  unfold readDesc
  split
  · rfl
  · rename_i hidx
    rw [not_not] at hidx
    rw [ptr_congr (m := m) h.size]
    cases hp : m.ptr b (q.descEntry idx) 16 with
    | error e => rfl
    | ok p =>
      obtain ⟨hin, rfl⟩ := ptr_eq_ok.mp hp
      have hword : ∀ a n i, a + n ≤ 16 → Within (b.offset (q.descEntry idx) + a) n i → K i := fun a n i han hi =>
        hK i ⟨idx, hidx, hin.touches_iff.mp ⟨by have := hi.1; omega, by have := hi.2; omega⟩⟩
      simp only [bind, Except.bind, pure, Except.pure]
      rw [h.readU64 fun i (hi : Within (b.offset (q.descEntry idx)) 8 i) => hword 0 8 i (by omega) hi,
        h.readU32 fun i => hword 8 4 i (by omega), h.readU16 fun i => hword 12 2 i (by omega),
        h.readU16 fun i => hword 14 2 i (by omega)]

/-- A walk reads the descriptor table and nothing else. --/
theorem walkFrom_congr {K : Nat → Prop} (h : AgreeOn K m.ram m'.ram) (hK : ∀ i, InDescTable b q i → K i) :
    ∀ fuel seen idx, m'.walkFrom b q fuel seen idx = m.walkFrom b q fuel seen idx
  | 0, _, _ => rfl
  | fuel + 1, seen, idx => by
    simp only [walkFrom, readDesc_congr h hK, walkFrom_congr h hK fuel]

theorem walkChain_congr {K : Nat → Prop} (h : AgreeOn K m.ram m'.ram) (hK : ∀ i, InDescTable b q i → K i)
    (head : UInt16) : m'.walkChain b q head = m.walkChain b q head := walkFrom_congr h hK _ _ _

/-- The indices that a walk has seen are distinct and below the queue's size, so there are at most as many. --/
theorem seen_length_le {seen : List UInt16} (hnd : seen.Nodup) (hlt : ∀ idx ∈ seen, idx.toNat < q.size) :
    seen.length ≤ q.size := by
  have hsub : seen.map UInt16.toNat ⊆ List.range q.size := fun n hn => by
    obtain ⟨idx, hidx, rfl⟩ := List.mem_map.mp hn
    exact List.mem_range.mpr (hlt idx hidx)
  have hnd' : (seen.map UInt16.toNat).Nodup := hnd.map fun _ _ h => UInt16.toNat_inj.mp h
  have := (List.subperm_of_subset hnd' hsub).length_le
  simpa using this

/-- More rounds than there are descriptors change nothing: the walk always ends by itself. --/
theorem walkFrom_fuel : ∀ {fuel fuel' : Nat} {seen : List UInt16} {idx : UInt16}, seen.Nodup →
    (∀ idx ∈ seen, idx.toNat < q.size) → q.size < seen.length + fuel → q.size < seen.length + fuel' →
    m.walkFrom b q fuel seen idx = m.walkFrom b q fuel' seen idx
  | 0, _, _, _, hnd, hlt, hf, _ => by
    have := seen_length_le hnd hlt
    omega
  | _, 0, _, _, hnd, hlt, _, hf => by
    have := seen_length_le hnd hlt
    omega
  | fuel + 1, fuel' + 1, seen, idx, hnd, hlt, hf, hf' => by
    by_cases hidx : idx.toNat < q.size
    · by_cases hseen : idx ∈ seen
      · simp only [walkFrom, hidx, hseen, not_true_eq_false, if_false, if_true]
      · have hrec : ∀ next, m.walkFrom b q fuel (idx :: seen) next = m.walkFrom b q fuel' (idx :: seen) next :=
          fun next => walkFrom_fuel (List.nodup_cons.mpr ⟨hseen, hnd⟩)
            (List.forall_mem_cons.mpr ⟨hidx, hlt⟩) (by simp only [List.length_cons]; omega)
            (by simp only [List.length_cons]; omega)
        simp only [walkFrom, hrec]
    · simp only [walkFrom, hidx, not_false_eq_true, if_true]

/-- `walk_chain` terminates: any number of rounds above the queue's size gives its result. --/
theorem walkChain_eq {fuel : Nat} (hf : q.size < fuel) (head : UInt16) :
    m.walkChain b q head = m.walkFrom b q fuel [] head := by
  have := q.size_le
  exact walkFrom_fuel List.nodup_nil (by simp) (by simp only [List.length_nil]; omega) (by simpa using hf)

/-- A walk that returns gives at least one descriptor. --/
theorem walkFrom_ne_nil {fuel : Nat} {seen : List UInt16} {idx : UInt16} :
    m.walkFrom b q fuel seen idx ≠ .ok [] := by
  cases fuel with
  | zero => simp [walkFrom]
  | succ fuel =>
    intro h
    simp only [walkFrom] at h
    split at h
    · cases h
    · split at h
      · cases h
      · cases hd : m.readDesc b q idx with
        | error e => rw [hd] at h; cases h
        | ok d =>
          simp only [hd, bind, Except.bind, pure, Except.pure] at h
          split at h
          · cases h
          · split at h
            · cases h
            · split at h
              · split at h <;> cases h
              · cases h

/-- A chain has at most as many descriptors as a queue may have. --/
theorem walkFrom_length : ∀ {fuel : Nat} {seen : List UInt16} {idx : UInt16} {chain : List Desc},
    m.walkFrom b q fuel seen idx = .ok chain → seen.length + chain.length ≤ Backend.maxQueueSize
  | 0, _, _, _, h => nomatch h
  | fuel + 1, seen, idx, chain, h => by
    simp only [walkFrom] at h
    split at h
    · cases h
    · split at h
      · cases h
      · cases hd : m.readDesc b q idx with
        | error e =>
          rw [hd] at h
          cases h
        | ok d =>
          simp only [hd, bind, Except.bind, pure, Except.pure] at h
          split at h
          · cases h
          · split at h
            · cases h
            · rename_i hlen
              split at h
              · rcases hrest : m.walkFrom b q fuel (idx :: seen) d.next with e | rest
                · rw [hrest] at h
                  cases h
                · rw [hrest] at h
                  cases h
                  have := walkFrom_length hrest
                  simp only [List.length_cons] at this ⊢
                  omega
              · cases h
                rw [List.length_singleton]
                omega

theorem walkChain_length {head : UInt16} {chain : List Desc} (h : m.walkChain b q head = .ok chain) :
    chain.length ≤ Backend.maxQueueSize := by
  have := walkFrom_length h
  rwa [List.length_nil, Nat.zero_add] at this

theorem walkChain_last {head : UInt16} {chain : List Desc} (h : m.walkChain b q head = .ok chain) :
    ∃ last, chain.getLast? = some last := by
  have hne : chain ≠ [] := by
    rintro rfl
    exact walkFrom_ne_nil h
  exact ⟨_, List.getLast?_eq_some_getLast hne⟩

/-! ### The used ring -/

/-- The index of the used ring. --/
def usedIdx (b : Backend) (m : GuestMemory) (q : Queue) : UInt16 := m.ram.readU16 (b.offset q.usedIdxAddr)

/-- The head that the used element at `position` names. --/
def usedId (b : Backend) (m : GuestMemory) (q : Queue) (position : UInt16) : UInt32 :=
  m.ram.readU32 (b.offset (q.usedEntry position))

/-- The number of bytes that the used element at `position` tells. --/
def usedLen (b : Backend) (m : GuestMemory) (q : Queue) (position : UInt16) : UInt32 :=
  m.ram.readU32 (b.offset (q.usedEntry position) + 4)

/-- The offset `i` belongs to the index of the used ring. --/
def InUsedIdx (b : Backend) (q : Queue) (i : Nat) : Prop := Touches b q.usedIdxAddr 2 i

/-- The offset `i` belongs to the used element at `position`. --/
def InUsedElem (b : Backend) (q : Queue) (position : UInt16) (i : Nat) : Prop := Touches b (q.usedEntry position) 8 i

/-- The memory after `push_used` has stored an element and the index. --/
def published (b : Backend) (q : Queue) (id written : UInt32) (m : GuestMemory) : GuestMemory :=
  storeU16 (b.offset q.usedIdxAddr) (m.usedIdx b q + 1)
    (storeU32 (b.offset (q.usedEntry (m.usedIdx b q)) + 4) written
      (storeU32 (b.offset (q.usedEntry (m.usedIdx b q))) id m))

/-- `push_used` finds the index and the element in RAM. --/
def CanPublish (b : Backend) (q : Queue) (m : GuestMemory) : Prop :=
  m.InRam b q.usedIdxAddr 2 ∧ m.InRam b (q.usedEntry (m.usedIdx b q)) 8

theorem usedSlot_toNat (q : Queue) (position : UInt16) :
    (2 + UInt64.ofNat (position.toNat % q.size) * 8).toNat = 2 + 8 * (position.toNat % q.size) := by
  have hlt : position.toNat % q.size < 256 := Nat.lt_of_lt_of_le (Nat.mod_lt _ q.size_pos) q.size_le
  simp only [UInt64.toNat_add, UInt64.toNat_mul, UInt64.toNat_ofNat', UInt64.reduceToNat]
  omega

theorem usedEntry_eq (q : Queue) (position : UInt16) :
    q.usedEntry position = q.usedIdxAddr + (2 + UInt64.ofNat (position.toNat % q.size) * 8) := by
  unfold Queue.usedEntry Queue.usedIdxAddr
  rw [← UInt64.add_assoc]
  congr 1
  rw [UInt64.add_assoc]
  rfl

/-- The elements come after the index. --/
theorem offset_usedEntry (h : m.InRam b q.usedIdxAddr 2) (position : UInt16) :
    b.offset (q.usedEntry position) = b.offset q.usedIdxAddr + 2 + 8 * (position.toNat % q.size) := by
  have hlt : position.toNat % q.size < 256 := Nat.lt_of_lt_of_le (Nat.mod_lt _ q.size_pos) q.size_le
  rw [usedEntry_eq, h.offset_add (by rw [usedSlot_toNat]; omega), usedSlot_toNat]
  omega

/-- With its whole used ring in RAM, `push_used` finds what it stores. --/
theorem usedIdx_inRam (h : m.InRam b q.deviceAddr (4 + 8 * q.size)) : m.InRam b q.usedIdxAddr 2 :=
  h.add (by decide) (by show 2 + 2 ≤ 4 + 8 * q.size; omega)

theorem usedEntry_inRam (h : m.InRam b q.deviceAddr (4 + 8 * q.size)) (position : UInt16) :
    m.InRam b (q.usedEntry position) 8 := by
  have hlt := Nat.mod_lt position.toNat q.size_pos
  have hsize : q.size ≤ 256 := q.size_le
  have hk : (4 + UInt64.ofNat (position.toNat % q.size) * 8).toNat = 4 + 8 * (position.toNat % q.size) := by
    simp only [UInt64.toNat_add, UInt64.toNat_mul, UInt64.toNat_ofNat', UInt64.reduceToNat]
    omega
  unfold Queue.usedEntry
  rw [UInt64.add_assoc]
  exact h.add (by omega) (by omega)

theorem canPublish_of_inRam (h : m.InRam b q.deviceAddr (4 + 8 * q.size)) : m.CanPublish b q :=
  ⟨usedIdx_inRam h, usedEntry_inRam h _⟩

/-- The index and the elements are in the used ring. --/
theorem touches_of_inUsedIdx (h : m.InRam b q.deviceAddr (4 + 8 * q.size)) (hi : InUsedIdx b q i) :
    Touches b q.deviceAddr (4 + 8 * q.size) i := by
  have hadd : q.usedIdxAddr.toNat = q.deviceAddr.toNat + 2 := h.toNat_add (by decide)
  have h1 := hi.1
  have h2 := hi.2
  constructor <;> omega

theorem touches_of_inUsedElem (h : m.InRam b q.deviceAddr (4 + 8 * q.size)) {position : UInt16}
    (hi : InUsedElem b q position i) : Touches b q.deviceAddr (4 + 8 * q.size) i := by
  have hlt := Nat.mod_lt position.toNat q.size_pos
  have hsize : q.size ≤ 256 := q.size_le
  have hadd : (q.usedEntry position).toNat = q.deviceAddr.toNat + 2 + (2 + 8 * (position.toNat % q.size)) := by
    rw [usedEntry_eq, (usedIdx_inRam h).toNat_add (by rw [usedSlot_toNat]; omega), usedSlot_toNat]
    exact congrArg (· + _) (h.toNat_add (k := 2) (by decide))
  have h1 := hi.1
  have h2 := hi.2
  constructor <;> omega

theorem pushUsed_of_canPublish {id written : UInt32} (h : m.CanPublish b q) :
    pushUsed b q id written m = (.ok (), m.published b q id written) := by
  obtain ⟨hidx, helem⟩ := h
  have hlen : m.InRam b (q.usedEntry (m.usedIdx b q) + 4) 4 := helem.add (by decide) (by decide)
  have h4 : b.offset (q.usedEntry (m.usedIdx b q) + 4) = b.offset (q.usedEntry (m.usedIdx b q)) + 4 :=
    helem.offset_add (by decide)
  unfold pushUsed
  rw [Exec.bind_of_ok Exec.get_apply, Exec.bind_of_ok (by rw [Exec.lift_apply, ptr_of_inRam hidx]),
    Exec.bind_of_ok (by rw [Exec.lift_apply]; exact congrArg (·, m) (ptr_of_inRam helem)),
    Exec.bind_of_ok Exec.modify_apply,
    Exec.bind_of_ok (by rw [Exec.lift_apply]; exact congrArg (·, _) (ptr_of_inRam hlen)),
    Exec.bind_of_ok Exec.modify_apply, Exec.modify_apply, published, ← h4]
  rfl

/-- Without its index and element in RAM, `push_used` throws before its first store. --/
theorem pushUsed_of_not_canPublish (id written : UInt32) (h : ¬m.CanPublish b q) :
    ∃ e, pushUsed b q id written m = (.error e, m) := by
  unfold pushUsed
  by_cases hidx : m.InRam b q.usedIdxAddr 2
  · obtain ⟨e, he⟩ := ptr_of_not_inRam (fun helem => h ⟨hidx, helem⟩)
    refine ⟨e, ?_⟩
    rw [Exec.bind_of_ok Exec.get_apply, Exec.bind_of_ok (by rw [Exec.lift_apply, ptr_of_inRam hidx])]
    exact Exec.bind_of_error (by rw [Exec.lift_apply]; exact congrArg (·, m) he)
  · obtain ⟨e, he⟩ := ptr_of_not_inRam hidx
    refine ⟨e, ?_⟩
    rw [Exec.bind_of_ok Exec.get_apply]
    exact Exec.bind_of_error (by rw [Exec.lift_apply, he])

/-- What `push_used` stores: one element, and the index. --/
theorem agreeOn_published (id written : UInt32) (h : m.CanPublish b q) :
    AgreeOn (fun i => ¬InUsedIdx b q i ∧ ¬InUsedElem b q (m.usedIdx b q) i) m.ram
      (m.published b q id written).ram := by
  obtain ⟨hidx, helem⟩ := h
  have hsub : ∀ {off i}, b.offset (q.usedEntry (m.usedIdx b q)) ≤ off →
      off ≤ b.offset (q.usedEntry (m.usedIdx b q)) + 4 → Within off 4 i →
      InUsedElem b q (m.usedIdx b q) i := fun h1 h2 hi =>
    helem.touches_iff.mp ⟨by have := hi.1; omega, by have := hi.2; omega⟩
  exact ((AgreeOn.writeU32 fun i hi hK => hK.2 (hsub (by omega) (by omega) hi)).trans
    (AgreeOn.writeU32 fun i hi hK => hK.2 (hsub (by omega) (by omega) hi))).trans
    (AgreeOn.writeU16 fun i hi hK => hK.1 (hidx.touches_iff.mp hi))

theorem usedIdx_published {id written : UInt32} :
    (m.published b q id written).usedIdx b q = m.usedIdx b q + 1 := readU16_writeU16 _

theorem usedId_published {id written : UInt32} (h : m.CanPublish b q) :
    (m.published b q id written).usedId b q (m.usedIdx b q) = id := by
  have hoff := offset_usedEntry h.1 (m.usedIdx b q)
  unfold usedId published storeU16 storeU32
  dsimp only
  rw [readU32_congr (s := (m.ram.writeU32 (b.offset (q.usedEntry (m.usedIdx b q))) id)), readU32_writeU32]
  intro i hi
  unfold writeU16 writeU32 at *
  rw [byte_write_of_not_within, byte_write_of_not_within]
  · unfold Within at hi ⊢
    simp only [List.length_cons, List.length_nil]
    omega
  · unfold Within at hi ⊢
    simp only [List.length_cons, List.length_nil]
    omega

theorem usedLen_published {id written : UInt32} (h : m.CanPublish b q) :
    (m.published b q id written).usedLen b q (m.usedIdx b q) = written := by
  have hoff := offset_usedEntry h.1 (m.usedIdx b q)
  unfold usedLen published storeU16
  dsimp only
  rw [readU32_congr (s := (storeU32 (b.offset (q.usedEntry (m.usedIdx b q)) + 4) written
    (storeU32 (b.offset (q.usedEntry (m.usedIdx b q))) id m)).ram)]
  · exact readU32_writeU32 written
  · intro i hi
    unfold writeU16
    rw [byte_write_of_not_within]
    unfold Within at hi ⊢
    simp only [List.length_cons, List.length_nil]
    omega

/-- Elements in different slots share no byte. --/
theorem usedElem_apart (h : m.InRam b q.deviceAddr (4 + 8 * q.size)) {x y : UInt16}
    (hne : x.toNat % q.size ≠ y.toNat % q.size) (hx : InUsedElem b q x i) : ¬InUsedElem b q y i := by
  intro hy
  have hx := (usedEntry_inRam h x).touches_iff.mpr hx
  have hy := (usedEntry_inRam h y).touches_iff.mpr hy
  rw [offset_usedEntry (usedIdx_inRam h)] at hx hy
  unfold Within at hx hy
  omega

theorem usedElem_apart_idx (h : m.InRam b q.deviceAddr (4 + 8 * q.size)) {x : UInt16} (hx : InUsedElem b q x i) :
    ¬InUsedIdx b q i := by
  intro hidx
  have hx := (usedEntry_inRam h x).touches_iff.mpr hx
  have hidx := (usedIdx_inRam h).touches_iff.mpr hidx
  rw [offset_usedEntry (usedIdx_inRam h)] at hx
  unfold Within at hx hidx
  omega

/-- What an element says depends on its own bytes. --/
theorem usedElem_congr (h : m.InRam b q.deviceAddr (4 + 8 * q.size)) {x : UInt16}
    (hsame : AgreeOn (InUsedElem b q x) m.ram m'.ram) :
    m'.usedId b q x = m.usedId b q x ∧ m'.usedLen b q x = m.usedLen b q x := by
  have hin := usedEntry_inRam h x
  constructor
  · exact hsame.readU32 fun i hi => hin.touches_iff.mp ⟨hi.1, by have := hi.2; omega⟩
  · exact hsame.readU32 fun i hi => hin.touches_iff.mp ⟨by have := hi.1; omega, by have := hi.2; omega⟩

@[simp] theorem size_published {id written : UInt32} : (m.published b q id written).size = m.size := rfl

end GuestMemory
end NodeVmm
