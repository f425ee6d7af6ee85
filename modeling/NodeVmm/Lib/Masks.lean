/-! Bits of 64-bit words under a mask. -/

namespace Masks
variable {x c m : UInt64}

/-- Setting other bits keeps those of the mask. --/
theorem or_and_of_disjoint (h : c &&& m = 0) : (x ||| c) &&& m = x &&& m := by
  have hsplit : (x ||| c) &&& m = (x &&& m) ||| (c &&& m) := UInt64.toBitVec_inj.mp BitVec.and_or_distrib_right
  rw [hsplit, h, UInt64.or_zero]

/-- Setting the bits of the mask. --/
theorem or_and_self : (x ||| m) &&& m = m := by
  refine UInt64.toBitVec_inj.mp (BitVec.eq_of_getElem_eq fun i hi => ?_)
  simp only [UInt64.toBitVec_and, UInt64.toBitVec_or, BitVec.getElem_and, BitVec.getElem_or]
  cases x.toBitVec[i] <;> cases m.toBitVec[i] <;> rfl

/-- Clearing other bits keeps those of the mask. --/
theorem and_and_of_sub (h : c &&& m = m) : x &&& c &&& m = x &&& m := by
  rw [UInt64.and_assoc, h]

theorem and_and_of_disjoint (h : c &&& m = 0) : x &&& c &&& m = 0 := by
  rw [UInt64.and_assoc, h, UInt64.and_zero]

/-- The upper half of a word has none of the lower bits. --/
theorem shiftLeft_and_low (h : m &&& (0xFFFFFFFF : UInt64) = m) : (x <<< 32) &&& m = 0 := by
  have hlow : (x <<< 32) &&& (0xFFFFFFFF : UInt64) = 0 := by
    have hmask : (0xFFFFFFFF : UInt64).toNat = 2 ^ 32 - 1 := rfl
    have hshift : (32 : UInt64).toNat % 64 = 32 := rfl
    refine UInt64.toNat_inj.mp ?_
    rw [UInt64.toNat_and, hmask, Nat.and_two_pow_sub_one_eq_mod, UInt64.toNat_shiftLeft, hshift, Nat.shiftLeft_eq]
    show _ = 0
    omega
  rw [← h, UInt64.and_comm m, ← UInt64.and_assoc, hlow, UInt64.zero_and]

end Masks
