import Mathlib.Algebra.Group.Nat.Defs
import Mathlib.Data.Nat.Bits
import Mathlib.Tactic.Common

/-! Words as little-endian bytes, as sets of bits of which the lowest one is taken out, and as 16-bit counters that
    wrap and name the slots of a ring. -/

namespace Words

/-! ### Bytes -/

/-- The `n` low bytes of a word, the lowest first. --/
def le : Nat → Nat → List UInt8
  | 0, _ => []
  | n + 1, v => UInt8.ofNat v :: le n (v / 256)

/-- The word of these bytes. --/
def ofLe : List UInt8 → Nat
  | [] => 0
  | b :: bs => b.toNat + 256 * ofLe bs

@[simp] theorem length_le {n v : Nat} : (le n v).length = n := by
  induction n generalizing v with
  | zero => rfl
  | succ n ih => exact congrArg (· + 1) ih

theorem ofLe_le {n v : Nat} : ofLe (le n v) = v % 256 ^ n := by
  induction n generalizing v with
  | zero => exact (Nat.mod_one v).symm
  | succ n ih =>
    have hlow : (UInt8.ofNat v).toNat = v % 256 := UInt8.toNat_ofNat'
    rw [le, ofLe, ih, hlow, Nat.pow_succ, Nat.mul_comm (256 ^ n), Nat.mod_mul]

theorem ofLe_lt {bs : List UInt8} : ofLe bs < 256 ^ bs.length := by
  induction bs with
  | nil => exact Nat.one_pos
  | cons b bs ih =>
    have hb := b.toNat_lt
    rw [ofLe, List.length_cons, Nat.pow_succ]
    omega

theorem le_add {m n v : Nat} : le (m + n) v = le m v ++ le n (v / 256 ^ m) := by
  induction m generalizing v with
  | zero => rw [Nat.zero_add, Nat.pow_zero, Nat.div_one, le, List.nil_append]
  | succ m ih => rw [Nat.succ_add, le, le, ih, Nat.div_div_eq_div_mul, ← Nat.pow_succ', List.cons_append]

theorem le_mod {n v : Nat} : le n (v % 256 ^ n) = le n v := by
  induction n generalizing v with
  | zero => rfl
  | succ n ih =>
    have hlow : UInt8.ofNat (v % 256 ^ (n + 1)) = UInt8.ofNat v := by
      refine UInt8.toNat_inj.mp ?_
      rw [UInt8.toNat_ofNat', UInt8.toNat_ofNat', Nat.pow_succ]
      exact Nat.mod_mod_of_dvd v (Nat.dvd_mul_left (2 ^ 8) (256 ^ n))
    rw [le, le, hlow, Nat.pow_succ, Nat.mul_comm, Nat.mod_mul_right_div_self, ih]

/-- The `n` low bytes of a word, the highest first. --/
def be (n v : Nat) : List UInt8 := (le n v).reverse

def ofBe (bs : List UInt8) : Nat := ofLe bs.reverse

@[simp] theorem length_be {n v : Nat} : (be n v).length = n := by
  rw [be, List.length_reverse, length_le]

theorem ofBe_be {n v : Nat} : ofBe (be n v) = v % 256 ^ n := by
  rw [ofBe, be, List.reverse_reverse, ofLe_le]

theorem be_add {m n v : Nat} : be (m + n) v = be m (v / 256 ^ n) ++ be n v := by
  rw [be, Nat.add_comm, le_add, List.reverse_append]
  rfl

theorem be_mod {n v : Nat} : be n (v % 256 ^ n) = be n v := congrArg List.reverse le_mod

/-- The bytes of an ASCII text. --/
def ascii (s : String) : List UInt8 := s.toList.map fun c => UInt8.ofNat c.toNat

/-! ### Bits -/

/-- `t` is the lowest bit of `w`. --/
structure LowestBit (w t : Nat) : Prop where
  testBit : w.testBit t = true
  le : ∀ i, w.testBit i = true → t ≤ i

/-- The number of zeros below the lowest bit of a word of `n` bits. --/
def ctz (n w : Nat) : Nat := ((List.range n).find? fun i => w.testBit i).getD n

theorem lowestBit_ctz {n w : Nat} (hw : w < 2 ^ n) (hne : w ≠ 0) : LowestBit w (ctz n w) := by
  obtain ⟨i, hi⟩ := Nat.exists_testBit_of_ne_zero hne
  have hbelow : ∀ i, w.testBit i = true → i < n := by
    intro i hi
    by_contra hge
    have hle : w < 2 ^ i := Nat.lt_of_lt_of_le hw (Nat.pow_le_pow_right Nat.two_pos (Nat.le_of_not_lt hge))
    rw [Nat.testBit_lt_two_pow hle] at hi
    exact Bool.false_ne_true hi
  cases hfind : (List.range n).find? fun i => w.testBit i with
  | none =>
    have hnone := List.find?_eq_none.mp hfind i (List.mem_range.mpr (hbelow i hi))
    exact absurd hi hnone
  | some t =>
    rw [ctz, hfind, Option.getD_some]
    refine ⟨List.find?_some hfind, fun j hj => ?_⟩
    by_contra hlt
    obtain ⟨-, -, hfirst⟩ := List.find?_range_eq_some.mp hfind
    exact absurd hj (by simpa using hfirst j (Nat.lt_of_not_le hlt))

/-- A word and its predecessor have in common what the word has without its lowest bit. --/
theorem testBit_and_pred {t : Nat} : ∀ {w : Nat}, LowestBit w t → ∀ i,
    (w &&& (w - 1)).testBit i = (w.testBit i && decide (i ≠ t)) := by
  induction t with
  | zero =>
    intro w h i
    have hodd : w % 2 = 1 := by simpa [Nat.testBit_zero] using h.testBit
    rw [Nat.testBit_and]
    cases i with
    | zero =>
      have heven : (w - 1).testBit 0 = false := by simp [Nat.testBit_zero]; omega
      simp [heven]
    | succ i =>
      have hhalf : (w - 1) / 2 = w / 2 := by omega
      simp [Nat.testBit_succ, hhalf]
  | succ t ih =>
    intro w h i
    have hzero : w.testBit 0 = false := by
      by_contra hne
      exact absurd (h.le 0 (by simpa using hne)) (Nat.not_succ_le_zero t)
    have heven : w % 2 = 0 := by simpa [Nat.testBit_zero] using hzero
    have hhalf : LowestBit (w / 2) t := by
      refine ⟨by rw [← Nat.testBit_succ]; exact h.testBit, fun j hj => ?_⟩
      exact Nat.le_of_succ_le_succ (h.le (j + 1) (by rw [Nat.testBit_succ]; exact hj))
    have hpred : (w - 1) / 2 = w / 2 - 1 := by omega
    cases i with
    | zero => rw [Nat.testBit_and, hzero, Bool.false_and, Bool.false_and]
    | succ i =>
      have hi := ih hhalf i
      rw [Nat.testBit_and] at hi ⊢
      rw [Nat.testBit_succ, Nat.testBit_succ, hpred, hi]
      simp

/-! ### 16-bit counters -/

section
variable {x y target : UInt16} {n j k size : Nat}

theorem add_ofNat_succ (x : UInt16) (n : Nat) : x + UInt16.ofNat (n + 1) = x + UInt16.ofNat n + 1 := by
  rw [UInt16.ofNat_add, UInt16.add_assoc]
  rfl

theorem succ_add_ofNat (x : UInt16) (n : Nat) : x + 1 + UInt16.ofNat n = x + UInt16.ofNat (n + 1) := by
  rw [add_ofNat_succ, UInt16.add_assoc, UInt16.add_comm 1, UInt16.add_assoc]

theorem eq_of_sub_eq_zero (h : (target - x).toNat = 0) : x = target := by
  apply UInt16.toNat_inj.mp
  have hx := x.toNat_lt
  have ht := target.toNat_lt
  rw [UInt16.toNat_sub] at h
  omega

/-- One step nearer to the target. --/
theorem sub_succ (h : (target - x).toNat = n + 1) : (target - (x + 1)).toNat = n := by
  have hx := x.toNat_lt
  have ht := target.toNat_lt
  have h1 : (1 : UInt16).toNat = 1 := rfl
  rw [UInt16.toNat_sub] at h
  rw [UInt16.toNat_sub, UInt16.toNat_add, h1]
  omega

/-- So many steps nearer to it. --/
theorem sub_add_ofNat (h : j ≤ (target - x).toNat) : (target - (x + UInt16.ofNat j)).toNat = (target - x).toNat - j := by
  have hx := x.toNat_lt
  have ht := target.toNat_lt
  rw [UInt16.toNat_sub] at h
  rw [UInt16.toNat_sub, UInt16.toNat_sub, UInt16.toNat_add, UInt16.toNat_ofNat']
  omega

theorem add_sub_self (x target : UInt16) : x + (target - x) = target := by
  rw [UInt16.add_comm, UInt16.sub_add_cancel]

theorem dvd_of_isPowerOfTwo (h : size.isPowerOfTwo) (hle : size ≤ 2 ^ 16) : size ∣ 2 ^ 16 := by
  obtain ⟨k, rfl⟩ := h
  refine Nat.pow_dvd_pow 2 ?_
  by_contra hlt
  have hbig : 2 ^ 17 ≤ 2 ^ k := Nat.pow_le_pow_right (by omega) (by omega)
  omega

/-- Fewer steps than the ring has slots come to another slot. --/
theorem slot_ne (hsize : size ∣ 2 ^ 16) (hjk : j < k) (hk : k < j + size) :
    (x + UInt16.ofNat j).toNat % size ≠ (x + UInt16.ofNat k).toNat % size := by
  have hslot : ∀ n : Nat, (x + UInt16.ofNat n).toNat % size = (x.toNat + n) % size := fun n => by
    rw [UInt16.toNat_add, UInt16.toNat_ofNat', Nat.add_mod_mod, Nat.mod_mod_of_dvd _ hsize]
  rw [hslot, hslot]
  intro h
  have hdvd : size ∣ (x.toNat + k) - (x.toNat + j) := Nat.dvd_of_mod_eq_zero (Nat.sub_mod_eq_zero_of_mod_eq h.symm)
  have hle := Nat.le_of_dvd (by omega) hdvd
  omega

end

end Words
