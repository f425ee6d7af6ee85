import Mathlib.Algebra.Group.Nat.Defs

/-! The three hypervisor back ends and the checked arithmetic of `native/kvm/backend.cc` and of
    `native/common/bytes.h`, which the WHP modules use. The HVF back end has no such helpers and writes its
    checks out in place (`Disk.diskOffset`), so it never calls the ones below. -/

namespace NodeVmm

inductive Backend where
  | kvm
  | whp
  | hvf
  deriving DecidableEq, Repr

/-- `UINT64_MAX`. --/
def uint64Max : Nat := 2 ^ 64 - 1

/-- A `uint64_t` value after wrapping. --/
def u64 (n : Nat) : Nat := n % 2 ^ 64

/-- The largest file offset, `std::numeric_limits<off_t>::max()`. --/
def offMax : Nat := 2 ^ 63 - 1

theorem le_offMax {n : Nat} : n ≤ offMax ↔ n < 2 ^ 63 := by
  unfold offMax
  omega

theorem u64_of_lt {n : Nat} (h : n < 2 ^ 64) : u64 n = n := Nat.mod_eq_of_lt h

namespace Backend

/-- `kMaxQueueSize`, the same in the three back ends. --/
def maxQueueSize : Nat := 256

def checkedAdd (b : Backend) (x y : Nat) (what : String) : Except String Nat :=
  match b with
  | .whp => if y = 0 ∨ x ≤ uint64Max - y then .ok (u64 (x + y)) else .error (what ++ " overflow")
  | _ => if x ≤ uint64Max - y then .ok (u64 (x + y)) else .error (what ++ " overflows")

def checkedMul (b : Backend) (x y : Nat) (what : String) : Except String Nat :=
  if x = 0 ∨ y = 0 then .ok 0
  else if x ≤ uint64Max / y then .ok (u64 (x * y))
  else .error (what ++ match b with | .whp => " overflow" | _ => " overflows")

def checkRange (b : Backend) (total offset len : Nat) (what : String) : Except String Unit :=
  match b with
  | .whp =>
    if ¬offset ≤ total then .error (what ++ " offset is out of range")
    else if ¬len ≤ total - offset then .error (what ++ " length is out of range")
    else .ok ()
  | _ => if offset ≤ total ∧ len ≤ total - offset then .ok () else .error (what ++ " out of bounds")

/-- A sum of two `uint64_t` values is accepted when it is one. --/
theorem checkedAdd_of_lt {b : Backend} {x y : Nat} {what : String} (h : x + y < 2 ^ 64) :
    b.checkedAdd x y what = .ok (x + y) := by
  have h1 : x ≤ uint64Max - y := by unfold uint64Max; omega
  cases b <;> simp [checkedAdd, h1, u64_of_lt h]

theorem checkedMul_of_lt {b : Backend} {x y : Nat} {what : String} (h : x * y < 2 ^ 64) :
    b.checkedMul x y what = .ok (x * y) := by
  unfold checkedMul
  split
  · rename_i h0
    rcases h0 with rfl | rfl <;> simp
  · rename_i h0
    have hy : 0 < y := by omega
    have : x ≤ uint64Max / y := (Nat.le_div_iff_mul_le hy).mpr (by unfold uint64Max; omega)
    simp [this, u64_of_lt h]

theorem checkedMul_of_ge {b : Backend} {x y : Nat} (what : String) (h : 2 ^ 64 ≤ x * y) :
    ∃ e, b.checkedMul x y what = .error e := by
  unfold checkedMul
  have h0 : ¬(x = 0 ∨ y = 0) := by
    rintro (rfl | rfl) <;> simp at h
  have hy : 0 < y := by omega
  have : ¬x ≤ uint64Max / y := fun hle => by
    have := (Nat.le_div_iff_mul_le hy).mp hle
    unfold uint64Max at this
    omega
  simp [h0, this]

theorem checkRange_of_le {b : Backend} {total offset len : Nat} {what : String} (h : offset + len ≤ total) :
    b.checkRange total offset len what = .ok () := by
  have h1 : offset ≤ total := by omega
  have h2 : len ≤ total - offset := by omega
  cases b <;> simp [checkRange, h1, h2]

theorem checkRange_of_gt {b : Backend} {total offset len : Nat} (what : String) (h : total < offset + len) :
    ∃ e, b.checkRange total offset len what = .error e := by
  have h1 : ¬(offset ≤ total ∧ len ≤ total - offset) := by omega
  cases b with
  | whp =>
    by_cases h2 : offset ≤ total
    · have h3 : ¬len ≤ total - offset := by omega
      exact ⟨_, by simp [checkRange, h2, h3]; rfl⟩
    · exact ⟨_, by simp [checkRange, h2]; rfl⟩
  | kvm => exact ⟨_, by simp only [checkRange, if_neg h1]; rfl⟩
  | hvf => exact ⟨_, by simp only [checkRange, if_neg h1]; rfl⟩

end Backend
end NodeVmm
