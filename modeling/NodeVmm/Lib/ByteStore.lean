import Mathlib.Algebra.Group.Nat.Defs
import Mathlib.Data.List.GetD
import Mathlib.Tactic.Common

/-! Stores of bytes with a fixed size, such as a RAM or a disk image: reading a range, writing a list of
    bytes at an offset, little-endian words, and what a write keeps. -/

/-- A store of `size` bytes. Only the bytes below `size` are ever looked at. --/
structure ByteStore where
  size : Nat
  byte : Nat → UInt8

namespace ByteStore

/-- The range of `len` bytes at `off` lies inside the store. --/
def InRange (s : ByteStore) (off len : Nat) : Prop := off ≤ s.size ∧ len ≤ s.size - off

instance (s : ByteStore) (off len : Nat) : Decidable (s.InRange off len) :=
  inferInstanceAs (Decidable (_ ∧ _))

/-- The `len` bytes at `off`. --/
def read (s : ByteStore) (off len : Nat) : List UInt8 := (List.range len).map fun i => s.byte (off + i)

/-- Store `bs` at `off`; the size stays. --/
def write (s : ByteStore) (off : Nat) (bs : List UInt8) : ByteStore :=
  { s with byte := fun i => if off ≤ i ∧ i < off + bs.length then bs.getD (i - off) 0 else s.byte i }

/-- The offset `i` is one of the `len` offsets at `off`. --/
def Within (off len i : Nat) : Prop := off ≤ i ∧ i < off + len

instance (off len i : Nat) : Decidable (Within off len i) := inferInstanceAs (Decidable (_ ∧ _))

/-- `t` has the size of `s` and its bytes at the offsets in `K`. --/
structure AgreeOn (K : Nat → Prop) (s t : ByteStore) : Prop where
  size : t.size = s.size
  byte : ∀ i, K i → t.byte i = s.byte i

/-! ### Reading and writing -/

section
variable {s t u : ByteStore} {off len i : Nat} {bs : List UInt8}

@[simp] theorem size_write : (s.write off bs).size = s.size := rfl

@[simp] theorem inRange_write {a n : Nat} : (s.write off bs).InRange a n ↔ s.InRange a n := Iff.rfl

@[simp] theorem length_read : (s.read off len).length = len := by simp [read]

theorem getD_read (h : i < len) : (s.read off len).getD i 0 = s.byte (off + i) := by
  simp [read, List.getD_eq_getElem?_getD, h]

@[simp] theorem read_zero : s.read off 0 = [] := rfl

theorem read_add (a b : Nat) : s.read off (a + b) = s.read off a ++ s.read (off + a) b := by
  simp [read, List.range_add, Nat.add_assoc, Function.comp_def]

theorem read_congr (h : ∀ i, Within off len i → t.byte i = s.byte i) : t.read off len = s.read off len := by
  refine List.map_congr_left fun i hi => h _ ⟨Nat.le_add_right _ _, ?_⟩
  have := List.mem_range.mp hi
  omega

theorem byte_write_of_within (h : Within off bs.length i) : (s.write off bs).byte i = bs.getD (i - off) 0 := by
  unfold Within at h
  simp [write, h]

theorem byte_write_of_not_within (h : ¬Within off bs.length i) : (s.write off bs).byte i = s.byte i := by
  unfold Within at h
  simp [write, h]

@[simp] theorem write_nil : s.write off [] = s := by
  have : ∀ i, ¬(off ≤ i ∧ i < off) := fun i h => by omega
  simp [write, this]

theorem read_write_self : (s.write off bs).read off bs.length = bs := by
  apply List.ext_getElem
  · simp
  · intro i h _
    simp only [length_read] at h
    have hw : Within off bs.length (off + i) := ⟨by omega, by omega⟩
    simp [read, byte_write_of_within hw, List.getD_eq_getElem?_getD, h]

/-- Two writes in a row at adjoining offsets are one. --/
theorem write_append {cs : List UInt8} : (s.write off bs).write (off + bs.length) cs = s.write off (bs ++ cs) := by
  have hbyte : ∀ i, ((s.write off bs).write (off + bs.length) cs).byte i = (s.write off (bs ++ cs)).byte i := by
    intro i
    by_cases hcs : Within (off + bs.length) cs.length i
    · have hall : Within off (bs ++ cs).length i := ⟨by have := hcs.1; omega, by
        rw [List.length_append]
        have := hcs.2
        omega⟩
      rw [byte_write_of_within hcs, byte_write_of_within hall, List.getD_append_right _ _ _ _ (by have := hcs.1; omega)]
      congr 1
      omega
    · rw [byte_write_of_not_within hcs]
      by_cases hbs : Within off bs.length i
      · have hall : Within off (bs ++ cs).length i := ⟨hbs.1, by rw [List.length_append]; have := hbs.2; omega⟩
        rw [byte_write_of_within hbs, byte_write_of_within hall, List.getD_append _ _ _ _ (by have := hbs.2; have := hbs.1; omega)]
      · have hnone : ¬Within off (bs ++ cs).length i := fun h => by
          rw [List.length_append] at h
          unfold Within at h hcs hbs
          omega
        rw [byte_write_of_not_within hbs, byte_write_of_not_within hnone]
  have hfun : ((s.write off bs).write (off + bs.length) cs).byte = (s.write off (bs ++ cs)).byte := funext hbyte
  exact congrArg (ByteStore.mk s.size) hfun

/-- The first part of a range was overwritten. --/
theorem read_write_of_le (h : bs.length ≤ len) : (s.write off bs).read off len = bs ++ (s.read off len).drop bs.length := by
  obtain ⟨k, rfl⟩ := Nat.exists_eq_add_of_le h
  have hrest : (s.write off bs).read (off + bs.length) k = s.read (off + bs.length) k :=
    read_congr fun i hi => byte_write_of_not_within fun hw => by
      unfold Within at hi hw
      omega
  rw [read_add, read_add, read_write_self, hrest, List.drop_append_of_le_length (Nat.le_of_eq length_read.symm),
    List.drop_of_length_le (Nat.le_of_eq length_read), List.nil_append]

theorem drop_read (skip : Nat) : (s.read off len).drop skip = s.read (off + skip) (len - skip) := by
  by_cases h : skip ≤ len
  · obtain ⟨k, rfl⟩ := Nat.exists_eq_add_of_le h
    rw [read_add, List.drop_append_of_le_length (Nat.le_of_eq length_read.symm),
      List.drop_of_length_le (Nat.le_of_eq length_read), List.nil_append, Nat.add_sub_cancel_left]
  · rw [List.drop_of_length_le (by rw [length_read]; omega), Nat.sub_eq_zero_of_le (Nat.le_of_not_le h), read_zero]

/-- Reading back what was read from another store and written at the same offset. --/
theorem byte_write_read (h : Within off len i) : (s.write off (u.read off len)).byte i = u.byte i := by
  have hw : Within off (u.read off len).length i := by simpa using h
  rw [byte_write_of_within hw, getD_read (by unfold Within at h; omega)]
  congr 1
  unfold Within at h
  omega

end

/-! ### Stores that agree -/

namespace AgreeOn
variable {K L : Nat → Prop} {s t u : ByteStore} {off len : Nat} {bs : List UInt8}

theorem refl (K : Nat → Prop) (s : ByteStore) : AgreeOn K s s := ⟨rfl, fun _ _ => rfl⟩

theorem trans (h₁ : AgreeOn K s t) (h₂ : AgreeOn K t u) : AgreeOn K s u :=
  ⟨h₂.size.trans h₁.size, fun i hi => (h₂.byte i hi).trans (h₁.byte i hi)⟩

theorem symm (h : AgreeOn K s t) : AgreeOn K t s := ⟨h.size.symm, fun i hi => (h.byte i hi).symm⟩

theorem mono (hL : ∀ i, L i → K i) (h : AgreeOn K s t) : AgreeOn L s t := ⟨h.size, fun i hi => h.byte i (hL i hi)⟩

theorem inRange (h : AgreeOn K s t) : t.InRange off len ↔ s.InRange off len := by
  unfold InRange
  rw [h.size]

/-- A write keeps the bytes outside the written range. --/
theorem write (h : ∀ i, Within off bs.length i → ¬K i) : AgreeOn K s (s.write off bs) :=
  ⟨rfl, fun i hi => byte_write_of_not_within fun hw => h i hw hi⟩

theorem read_eq (h : AgreeOn K s t) (hK : ∀ i, Within off len i → K i) : t.read off len = s.read off len :=
  read_congr fun i hi => h.byte i (hK i hi)

end AgreeOn

/-! ### Little-endian words -/

def readU16 (s : ByteStore) (off : Nat) : UInt16 :=
  (s.byte off).toUInt16 ||| ((s.byte (off + 1)).toUInt16 <<< 8)

def readU32 (s : ByteStore) (off : Nat) : UInt32 :=
  (s.byte off).toUInt32 ||| ((s.byte (off + 1)).toUInt32 <<< 8) ||| ((s.byte (off + 2)).toUInt32 <<< 16) |||
    ((s.byte (off + 3)).toUInt32 <<< 24)

def readU64 (s : ByteStore) (off : Nat) : UInt64 :=
  (s.readU32 off).toUInt64 ||| ((s.readU32 (off + 4)).toUInt64 <<< 32)

def writeU16 (s : ByteStore) (off : Nat) (v : UInt16) : ByteStore :=
  s.write off [v.toUInt8, (v >>> 8).toUInt8]

def writeU32 (s : ByteStore) (off : Nat) (v : UInt32) : ByteStore :=
  s.write off [v.toUInt8, (v >>> 8).toUInt8, (v >>> 16).toUInt8, (v >>> 24).toUInt8]

section
variable {K : Nat → Prop} {s t : ByteStore} {off : Nat}

@[simp] theorem size_writeU16 {v : UInt16} : (s.writeU16 off v).size = s.size := rfl

@[simp] theorem size_writeU32 {v : UInt32} : (s.writeU32 off v).size = s.size := rfl

theorem readU16_congr (h : ∀ i, Within off 2 i → t.byte i = s.byte i) : t.readU16 off = s.readU16 off := by
  unfold readU16
  rw [h off ⟨by omega, by omega⟩, h (off + 1) ⟨by omega, by omega⟩]

theorem readU32_congr (h : ∀ i, Within off 4 i → t.byte i = s.byte i) : t.readU32 off = s.readU32 off := by
  unfold readU32
  rw [h off ⟨by omega, by omega⟩, h (off + 1) ⟨by omega, by omega⟩, h (off + 2) ⟨by omega, by omega⟩,
    h (off + 3) ⟨by omega, by omega⟩]

theorem readU64_congr (h : ∀ i, Within off 8 i → t.byte i = s.byte i) : t.readU64 off = s.readU64 off := by
  unfold readU64
  rw [readU32_congr (s := s) fun i hi => h i ⟨hi.1, by unfold Within at hi; omega⟩,
    readU32_congr (s := s) fun i hi => h i ⟨by unfold Within at hi; omega, by unfold Within at hi; omega⟩]

/-- The two bytes of a word, put together again. --/
theorem u16_of_bytes (v : UInt16) : v.toUInt8.toUInt16 ||| ((v >>> 8).toUInt8.toUInt16 <<< 8) = v := by
  apply UInt16.toBitVec_inj.mp
  simp only [UInt16.toBitVec_or, UInt16.toBitVec_shiftLeft, UInt8.toBitVec_toUInt16, UInt16.toBitVec_toUInt8,
    UInt16.toBitVec_shiftRight]
  ext i hi
  simp
  grind

theorem u32_of_bytes (v : UInt32) :
    v.toUInt8.toUInt32 ||| ((v >>> 8).toUInt8.toUInt32 <<< 8) ||| ((v >>> 16).toUInt8.toUInt32 <<< 16) |||
      ((v >>> 24).toUInt8.toUInt32 <<< 24) = v := by
  apply UInt32.toBitVec_inj.mp
  simp only [UInt32.toBitVec_or, UInt32.toBitVec_shiftLeft, UInt8.toBitVec_toUInt32, UInt32.toBitVec_toUInt8,
    UInt32.toBitVec_shiftRight]
  ext i hi
  simp
  grind

@[simp] theorem readU16_writeU16 (v : UInt16) : (s.writeU16 off v).readU16 off = v := by
  have h0 : (s.writeU16 off v).byte off = v.toUInt8 := by simp [writeU16, write]
  have h1 : (s.writeU16 off v).byte (off + 1) = (v >>> 8).toUInt8 := by simp [writeU16, write]
  rw [readU16, h0, h1, u16_of_bytes]

@[simp] theorem readU32_writeU32 (v : UInt32) : (s.writeU32 off v).readU32 off = v := by
  have h0 : (s.writeU32 off v).byte off = v.toUInt8 := by simp [writeU32, write]
  have h1 : (s.writeU32 off v).byte (off + 1) = (v >>> 8).toUInt8 := by simp [writeU32, write]
  have h2 : (s.writeU32 off v).byte (off + 2) = (v >>> 16).toUInt8 := by simp [writeU32, write]
  have h3 : (s.writeU32 off v).byte (off + 3) = (v >>> 24).toUInt8 := by simp [writeU32, write]
  rw [readU32, h0, h1, h2, h3, u32_of_bytes]

theorem AgreeOn.writeU16 {v : UInt16} (h : ∀ i, Within off 2 i → ¬K i) : AgreeOn K s (s.writeU16 off v) :=
  AgreeOn.write h

theorem AgreeOn.writeU32 {v : UInt32} (h : ∀ i, Within off 4 i → ¬K i) : AgreeOn K s (s.writeU32 off v) :=
  AgreeOn.write h

theorem AgreeOn.readU16 (h : AgreeOn K s t) (hK : ∀ i, Within off 2 i → K i) : t.readU16 off = s.readU16 off :=
  readU16_congr fun i hi => h.byte i (hK i hi)

theorem AgreeOn.readU32 (h : AgreeOn K s t) (hK : ∀ i, Within off 4 i → K i) : t.readU32 off = s.readU32 off :=
  readU32_congr fun i hi => h.byte i (hK i hi)

theorem AgreeOn.readU64 (h : AgreeOn K s t) (hK : ∀ i, Within off 8 i → K i) : t.readU64 off = s.readU64 off :=
  readU64_congr fun i hi => h.byte i (hK i hi)

end

end ByteStore
