/-
# Bytes and words

The machine moves bytes and forms 16-bit addresses from pairs of them, low byte
first.  `Word.ofBytes` joins two bytes, `Word.low` and `Word.high` take a word
apart, and the three lemmas below say that nothing is lost either way.
-/

namespace Famicom
namespace Word

/-- The word whose low byte is `low` and whose high byte is `high`. -/
@[inline] def ofBytes (low high : UInt8) : UInt16 := high.toUInt16 <<< 8 ||| low.toUInt16

/-- The low byte of a word. -/
@[inline] def low (w : UInt16) : UInt8 := w.toUInt8

/-- The high byte of a word. -/
@[inline] def high (w : UInt16) : UInt8 := (w >>> 8).toUInt8

/-- A word as a number. -/
theorem toNat_ofBytes (l h : UInt8) : (ofBytes l h).toNat = 256 * h.toNat + l.toNat := by
  have hl := l.toNat_lt
  have hh := h.toNat_lt
  have e : h.toNat <<< 8 % 65536 = h.toNat <<< 8 := by
    rw [Nat.shiftLeft_eq]; omega
  simp only [ofBytes, UInt16.toNat_or, UInt16.toNat_shiftLeft, UInt8.toNat_toUInt16]
  rw [show ((8 : UInt16).toNat % 16) = 8 from rfl, e, Nat.shiftLeft_eq, Nat.mul_comm,
    ← Nat.two_pow_add_eq_or_of_lt hl]

/-- Its low byte is the remainder, -/
theorem toNat_low (w : UInt16) : (low w).toNat = w.toNat % 256 := by
  simp [low]

/-- and its high byte the quotient. -/
theorem toNat_high (w : UInt16) : (high w).toNat = w.toNat / 256 := by
  have := w.toNat_lt
  have e : (w >>> 8).toNat = w.toNat / 256 := by
    rw [UInt16.toNat_shiftRight]
    simp [Nat.shiftRight_eq_div_pow]
  rw [high, UInt16.toNat_toUInt8, e]
  omega

/-- A word is the join of its two bytes. -/
theorem ofBytes_low_high (w : UInt16) : ofBytes (low w) (high w) = w := by
  apply UInt16.toNat_inj.1
  rw [toNat_ofBytes, toNat_low, toNat_high]
  omega

/-- The low byte comes first. -/
example : Word.ofBytes 0x34 0x12 = 0x1234 := by decide

end Word
end Famicom
