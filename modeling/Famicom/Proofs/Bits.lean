/-
# Bits

The machine tests a bit with a mask.  What is said of numbers wants the bit itself, and of the
highest bit of a byte whether the byte is large.
-/

import Famicom.Word
import Mathlib.Data.Nat.Bitwise

namespace Famicom

theorem and_two_pow_ne_zero (n i : Nat) : (n &&& 2 ^ i != 0) = n.testBit i := by
  rw [Nat.and_two_pow]
  cases n.testBit i <;> simp

/-- A bit of a byte, tested with a mask. -/
theorem and_mask_ne_zero (v mask : UInt8) {i : Nat} (h : mask.toNat = 2 ^ i) :
    (v &&& mask != 0) = v.toNat.testBit i := by
  rw [← and_two_pow_ne_zero, Bool.eq_iff_iff, bne_iff_ne, bne_iff_ne, ne_eq, ne_eq,
    ← UInt8.toNat_inj, UInt8.toNat_and, h]
  rfl

/-- A bit of a word, tested with a mask. -/
theorem Word.and_mask_ne_zero (w mask : UInt16) {i : Nat} (h : mask.toNat = 2 ^ i) :
    (w &&& mask != 0) = w.toNat.testBit i := by
  rw [← and_two_pow_ne_zero, Bool.eq_iff_iff, bne_iff_ne, bne_iff_ne, ne_eq, ne_eq,
    ← UInt16.toNat_inj, UInt16.toNat_and, h]
  rfl

/-- The highest bit of a byte. -/
theorem and_highest_ne_zero (v : UInt8) : (v &&& 0x80 != 0) = v.toBitVec.msb :=
  (and_mask_ne_zero v 0x80 (show _ = 2 ^ 7 from rfl)).trans rfl

/-- The highest bit says whether a byte is large. -/
theorem msb_iff (v : UInt8) : v.toBitVec.msb = true ↔ 128 ≤ v.toNat := by
  rw [BitVec.msb_eq_decide, decide_eq_true_eq]
  rfl

end Famicom
