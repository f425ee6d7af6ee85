import NodeVmm.Lib.Patch

/-! Tables of bytes with fields at fixed offsets: what is written at one offset, and read at another. Also the sum of the
    bytes, and bytes that are to make it zero. -/

namespace Fields

abbrev Bytes := List UInt8

/-- The `n` bytes at an offset. --/
def field (table : Bytes) (off n : Nat) : Bytes := (table.drop off).take n

def word (table : Bytes) (off n : Nat) : Nat := Words.ofLe (field table off n)

/-- The bytes over those at an offset. --/
def putAt (table : Bytes) (off : Nat) (bytes : Bytes) : Bytes := table.take off ++ bytes ++ table.drop (off + bytes.length)

/-- The table after patches, one after the other. --/
def putAll (table : Bytes) (ps : List Patch) : Bytes := ps.foldl (fun table p => putAt table p.off p.bytes) table

/-- The sum of the bytes. --/
def sum (table : Bytes) : Nat := table.foldr (fun b sum => b.toNat + sum) 0

section
variable {table bytes s t : Bytes} {off k n v : Nat} {b : UInt8} {p : Patch} {ps : List Patch}

/-! ### Fields -/

theorem length_putAt (h : off + bytes.length ≤ table.length) : (putAt table off bytes).length = table.length := by
  simp only [putAt, List.length_append, List.length_take, List.length_drop]
  omega

/-- A table as a store of bytes. --/
def store (table : Bytes) : ByteStore := ⟨table.length, fun i => table.getD i 0⟩

theorem read_store (h : off + n ≤ table.length) : (store table).read off n = field table off n := by
  refine List.ext_getElem ?_ fun i hi _ => ?_
  · rw [ByteStore.length_read, field, List.length_take, List.length_drop]
    omega
  · rw [ByteStore.length_read] at hi
    have hin : off + i < table.length := by omega
    simp [ByteStore.read, store, field, hin]

theorem store_putAt (h : off + bytes.length ≤ table.length) :
    store (putAt table off bytes) = (store table).write off bytes := by
  have htake : (table.take off).length = off := List.length_take_of_le (by omega)
  have hbyte : ∀ i, (store (putAt table off bytes)).byte i = ((store table).write off bytes).byte i := by
    intro i
    by_cases hin : ByteStore.Within off bytes.length i
    · rw [ByteStore.byte_write_of_within hin]
      have hi := hin.1
      have hlt := hin.2
      simp only [store, putAt, List.append_assoc]
      rw [List.getD_append_right _ _ _ _ (by omega), htake, List.getD_append _ _ _ _ (by omega)]
    · rw [ByteStore.byte_write_of_not_within hin]
      simp only [ByteStore.Within] at hin
      simp only [store, putAt, List.append_assoc, List.getD_eq_getElem?_getD]
      rcases Nat.lt_or_ge i off with hlow | hhigh
      · rw [List.getElem?_append_left (by omega), List.getElem?_take_of_lt hlow]
      · rw [List.getElem?_append_right (by omega), List.getElem?_append_right (by omega), htake, List.getElem?_drop]
        congr 2
        omega
  have hsize : (store (putAt table off bytes)).size = ((store table).write off bytes).size := length_putAt h
  have hmk : ∀ {s t : ByteStore}, s.size = t.size → s.byte = t.byte → s = t := by
    rintro ⟨_, _⟩ ⟨_, _⟩ rfl rfl
    rfl
  exact hmk hsize (funext hbyte)

theorem length_putAll (h : ∀ p ∈ ps, p.off + p.bytes.length ≤ table.length) : (putAll table ps).length = table.length := by
  induction ps generalizing table with
  | nil => rfl
  | cons p ps ih =>
    obtain ⟨hp, hps⟩ := List.forall_mem_cons.mp h
    have hlen := length_putAt hp
    exact (ih fun q hq => by rw [hlen]; exact hps q hq).trans hlen

theorem store_putAll (h : ∀ p ∈ ps, p.off + p.bytes.length ≤ table.length) :
    store (putAll table ps) = (store table).patch ps := by
  induction ps generalizing table with
  | nil => rfl
  | cons p ps ih =>
    obtain ⟨hp, hps⟩ := List.forall_mem_cons.mp h
    have hrest := @ih (putAt table p.off p.bytes) fun q hq => by rw [length_putAt hp]; exact hps q hq
    rw [store_putAt hp] at hrest
    exact hrest

/-- A field is read back if the patches are one behind the other. --/
theorem field_putAll (hp : p ∈ ps) (h : Patch.Ordered table.length 0 ps) :
    field (putAll table ps) p.off p.bytes.length = p.bytes := by
  have hfit : ∀ q ∈ ps, q.off + q.bytes.length ≤ table.length := fun q hq => (h.inside hq).2
  rw [← read_store (by rw [length_putAll hfit]; exact hfit p hp), store_putAll hfit]
  exact ByteStore.read_patch hp fun q hq => h.apart hp hq

theorem word_eq (h : field table off n = Words.le n v) (hv : v < 256 ^ n) : word table off n = v := by
  rw [word, h, Words.ofLe_le, Nat.mod_eq_of_lt hv]

theorem word_putAll (hp : ⟨off, Words.le n v⟩ ∈ ps) (h : Patch.Ordered table.length 0 ps) (hv : v < 256 ^ n) :
    word (putAll table ps) off n = v := by
  have hread := field_putAll hp h
  rw [Words.length_le] at hread
  exact word_eq hread hv

/-- A field that no patch is written over. --/
theorem field_putAll_apart (h : Patch.Ordered table.length 0 ps) (hin : off + n ≤ table.length)
    (hapart : ∀ q ∈ ps, q.off + q.bytes.length ≤ off ∨ off + n ≤ q.off) :
    field (putAll table ps) off n = field table off n := by
  have hfit : ∀ q ∈ ps, q.off + q.bytes.length ≤ table.length := fun q hq => (h.inside hq).2
  have hzeros : (List.replicate n (0 : UInt8)).length = n := List.length_replicate
  rw [← read_store (by rwa [length_putAll hfit]), ← read_store hin, store_putAll hfit]
  refine ByteStore.read_patch_of_apart (fun q hq => ?_) hzeros
  simp only [Patch.Apart, hzeros]
  exact hapart q hq

theorem putAt_append {front : Bytes} (h : front.length = k) :
    putAt (front ++ table) (k + off) bytes = front ++ putAt table off bytes := by
  subst h
  have htake : (front ++ table).take (front.length + off) = front ++ table.take off := List.take_length_add_append off
  have hdrop : (front ++ table).drop (front.length + off + bytes.length) = table.drop (off + bytes.length) := by
    rw [Nat.add_assoc, List.drop_length_add_append]
  rw [putAt, htake, hdrop, putAt, List.append_assoc, List.append_assoc, List.append_assoc]

/-- What is behind the bytes stays. --/
theorem putAt_append_left (h : off + bytes.length ≤ s.length) : putAt (s ++ t) off bytes = putAt s off bytes ++ t := by
  rw [putAt, putAt, List.take_append_of_le_length (by omega), List.drop_append_of_le_length h, List.append_assoc _ _ t]

theorem putAll_append_left (h : ∀ p ∈ ps, p.off + p.bytes.length ≤ s.length) : putAll (s ++ t) ps = putAll s ps ++ t := by
  induction ps generalizing s with
  | nil => rfl
  | cons p ps ih =>
    obtain ⟨hp, hps⟩ := List.forall_mem_cons.mp h
    have hrest := @ih (putAt s p.off p.bytes) fun q hq => by rw [length_putAt hp]; exact hps q hq
    rw [← putAt_append_left hp] at hrest
    exact hrest

theorem putAll_append {front : Bytes} (h : front.length = k) :
    putAll (front ++ table) (ps.map (Patch.shift k)) = front ++ putAll table ps := by
  induction ps generalizing table with
  | nil => rfl
  | cons p ps ih =>
    have hput : putAt (front ++ table) (p.shift k).off (p.shift k).bytes = front ++ putAt table p.off p.bytes := putAt_append h
    rw [List.map_cons, putAll, List.foldl_cons, hput]
    exact ih

/-! ### Sums -/

theorem sum_cons : sum (b :: table) = b.toNat + sum table := rfl

theorem sum_append : sum (s ++ t) = sum s + sum t := by
  induction s with
  | nil => exact (Nat.zero_add _).symm
  | cons b s ih => rw [List.cons_append, sum_cons, sum_cons, ih, Nat.add_assoc]

end

end Fields
