/-
# What the shift registers show

A shift register holds the byte of one tile above the byte of the next, moved up by as many places
as dots have passed since the second was loaded (`ShiftRegister.Holds`).  The fine column picks one
of the upper eight places, so what is shown is a bit of the first byte until it has left, and then
a bit of the second.

A tile loads four registers at once (`Planes`): with the two planes of its pattern row and, for the
whole row, with the two bits of its palette (`Row.planes`).
-/

import Famicom.Ppu.Background
import Famicom.Proofs.Bits

namespace Famicom
namespace Ppu

namespace ShiftRegister

/-- The register holds `a` above `b`, moved up by `i` places. -/
def Holds (w : UInt16) (a b : UInt8) (i : Nat) : Prop :=
  w.toNat = (a.toNat * 256 + b.toNat) * 2 ^ i % 2 ^ 16

variable {w : UInt16} {a b : UInt8} {i : Nat}

theorem Holds.shift (h : Holds w a b i) : Holds (w <<< 1) a b (i + 1) := by
  have h₁ : (1 : UInt16).toNat % 16 = 1 := rfl
  have h₂ : (a.toNat * 256 + b.toNat) * 2 ^ (i + 1) =
      (a.toNat * 256 + b.toNat) * 2 ^ i * 2 ^ 1 := by
    rw [Nat.pow_add, Nat.mul_assoc]
  rw [Holds, UInt16.toNat_shiftLeft, h₁, Nat.shiftLeft_eq, h, h₂]
  exact Nat.mod_mul_mod ..

theorem toNat_loadHalf (w : UInt16) (v : UInt8) :
    (Background.loadHalf w v).toNat = w.toNat / 256 * 256 + v.toNat := by
  have hv : v.toNat < 2 ^ 8 := v.toNat_lt
  have hw : w.toNat < 2 ^ 16 := w.toNat_lt
  have hm : (0xFF00 : UInt16).toNat = (2 ^ 8 - 1) * 2 ^ 8 := rfl
  have ha : w.toNat &&& (2 ^ 8 - 1) * 2 ^ 8 = 2 ^ 8 * (w.toNat / 256) := by
    refine Nat.eq_of_testBit_eq fun j => ?_
    rw [Nat.testBit_and, Nat.testBit_mul_two_pow, Nat.testBit_two_pow_sub_one,
      Nat.testBit_two_pow_mul, show w.toNat / 256 = w.toNat / 2 ^ 8 from rfl,
      Nat.testBit_div_two_pow]
    by_cases h₈ : 8 ≤ j
    · by_cases h₁₆ : j < 16
      · have : j - 8 < 8 := by omega
        simp [h₈, this, Nat.sub_add_cancel h₈]
      · have hf : w.toNat.testBit j = false :=
          Nat.testBit_lt_two_pow
            (Nat.lt_of_lt_of_le hw (Nat.pow_le_pow_right (by omega) (by omega)))
        simp [hf, Nat.sub_add_cancel h₈]
    · simp [h₈]
  rw [Background.loadHalf, UInt16.toNat_or, UInt16.toNat_and, UInt8.toNat_toUInt16, hm, ha,
    ← Nat.two_pow_add_eq_or_of_lt hv, Nat.mul_comm]

/-- A byte that is loaded stands below the upper byte of the register. -/
theorem holds_loadHalf (w : UInt16) (v : UInt8) :
    ∃ a, Holds (Background.loadHalf w v) a v 0 := by
  have hw := w.toNat_lt
  have hv := v.toNat_lt
  refine ⟨UInt8.ofNat (w.toNat / 256), ?_⟩
  have ha : (UInt8.ofNat (w.toNat / 256)).toNat = w.toNat / 256 := by
    rw [UInt8.toNat_ofNat']
    omega
  rw [Holds, toNat_loadHalf, ha]
  omega

/-- When a byte is loaded after eight places, the byte below has come to stand above. -/
theorem Holds.load (h : Holds w a b 8) (v : UInt8) : Holds (Background.loadHalf w v) b v 0 := by
  have hb := b.toNat_lt
  have hv := v.toNat_lt
  rw [Holds] at h
  rw [Holds, toNat_loadHalf, h]
  omega

/-- The bit below the top that the fine column picks. -/
theorem and_bit (w : UInt16) {n : Nat} (hn : n < 8) :
    (w &&& (0x8000 >>> UInt16.ofNat n) != 0) = w.toNat.testBit (15 - n) := by
  have hb : ((0x8000 : UInt16) >>> UInt16.ofNat n).toNat = 2 ^ (15 - n) := by
    have : ∀ m < 8, ((0x8000 : UInt16) >>> UInt16.ofNat m).toNat = 2 ^ (15 - m) := by decide
    exact this n hn
  exact Word.and_mask_ne_zero w _ hb

/-- **What a register shows**: a bit of the upper byte until it has left, then one of the lower. -/
theorem Holds.bit (h : Holds w a b i) {n : Nat} (hn : n < 8) (hi : i < 8) :
    (w &&& (0x8000 >>> UInt16.ofNat n) != 0) =
      if n + i < 8 then a.toNat.testBit (7 - (n + i)) else b.toNat.testBit (15 - (n + i)) := by
  have hb : b.toNat < 2 ^ 8 := b.toNat_lt
  have h₁ : 15 - n < 16 := by omega
  have h₂ : i ≤ 15 - n := by omega
  have h₃ : a.toNat * 256 + b.toNat = 2 ^ 8 * a.toNat + b.toNat := by omega
  rw [and_bit w hn, h, Nat.testBit_mod_two_pow, Nat.testBit_mul_two_pow, h₃,
    Nat.testBit_two_pow_mul_add _ hb, decide_eq_true h₁, decide_eq_true h₂, Bool.true_and,
    Bool.true_and]
  by_cases hni : n + i < 8
  · rw [if_pos hni, if_neg (by omega)]
    congr 1
    omega
  · rw [if_neg hni, if_pos (by omega)]
    congr 1
    omega

end ShiftRegister

/-- One row of a tile: the two planes of its pattern, and its palette. -/
structure Row where
  low : UInt8
  high : UInt8
  palette : Nat
deriving DecidableEq, Repr

namespace Row

/-- The palette address of the pixel in a column: the palette and the two bits of the pattern, or
zero where the pattern is transparent. -/
def pixel (r : Row) (column : Nat) : UInt8 :=
  let low := r.low.toNat.testBit (7 - column)
  let high := r.high.toNat.testBit (7 - column)
  if low || high then UInt8.ofNat (low.toNat + 2 * high.toNat + 4 * (r.palette % 4)) else 0

/-- A byte that holds the same bit eight times. -/
def spread (bit : Bool) : UInt8 := if bit then 0xFF else 0

theorem testBit_spread (bit : Bool) {j : Nat} (hj : j < 8) :
    (spread bit).toNat.testBit j = bit := by
  cases bit with
  | false => exact Nat.zero_testBit j
  | true =>
    have h : ∀ k < 8, (0xFF : UInt8).toNat.testBit k = true := by decide
    exact h j hj

end Row

/-- The bytes of one row in the four shift registers. -/
structure Planes where
  low : UInt8
  high : UInt8
  paletteLow : UInt8
  paletteHigh : UInt8
deriving DecidableEq, Repr

/-- The bytes that a row puts into the shift registers. -/
def Row.planes (r : Row) : Planes where
  low := r.low
  high := r.high
  paletteLow := spread (decide (r.palette % 2 = 1))
  paletteHigh := spread (decide (r.palette / 2 % 2 = 1))

theorem Row.paletteLow_planes (r : Row) :
    r.planes.paletteLow = spread (decide (r.palette % 2 = 1)) := rfl

theorem Row.paletteHigh_planes (r : Row) :
    r.planes.paletteHigh = spread (decide (r.palette / 2 % 2 = 1)) := rfl

namespace Background

/-- The row in the latches. -/
def row (b : Background) : Row := ⟨b.low, b.high, b.palette⟩

/-- The shift registers hold the bytes of one row above those of the next, `i` dots after the
second was loaded. -/
structure Holds (b : Background) (u v : Planes) (i : Nat) : Prop where
  low : ShiftRegister.Holds b.patternLow u.low v.low i
  high : ShiftRegister.Holds b.patternHigh u.high v.high i
  paletteLow : ShiftRegister.Holds b.paletteLow u.paletteLow v.paletteLow i
  paletteHigh : ShiftRegister.Holds b.paletteHigh u.paletteHigh v.paletteHigh i

variable {b : Background} {u v : Planes} {i : Nat}

/-- What enters the registers are the planes of the row in the latches. -/
theorem load_eq (b : Background) :
    b.load = { b with
      patternLow := loadHalf b.patternLow b.row.planes.low
      patternHigh := loadHalf b.patternHigh b.row.planes.high
      paletteLow := loadHalf b.paletteLow b.row.planes.paletteLow
      paletteHigh := loadHalf b.paletteHigh b.row.planes.paletteHigh } := by
  have hs (c : Prop) [Decidable c] : Row.spread (decide c) = if c then 0xFF else 0 := by
    by_cases h : c
    · rw [if_pos h, decide_eq_true h]
      rfl
    · rw [if_neg h, decide_eq_false h]
      rfl
  rw [row, Row.planes, hs, hs]
  rfl

theorem Holds.shift (h : b.Holds u v i) : b.shift.Holds u v (i + 1) where
  low := h.low.shift
  high := h.high.shift
  paletteLow := h.paletteLow.shift
  paletteHigh := h.paletteHigh.shift

/-- Eight dots after a row was loaded the next one is loaded behind it. -/
theorem Holds.load (h : b.Holds u v 8) : b.load.Holds v b.row.planes 0 := by
  rw [load_eq]
  exact ⟨h.low.load _, h.high.load _, h.paletteLow.load _, h.paletteHigh.load _⟩

/-- Whatever the registers hold, a row is loaded behind it. -/
theorem holds_load (b : Background) : ∃ u, b.load.Holds u b.row.planes 0 := by
  obtain ⟨low, hl⟩ := ShiftRegister.holds_loadHalf b.patternLow b.row.planes.low
  obtain ⟨high, hh⟩ := ShiftRegister.holds_loadHalf b.patternHigh b.row.planes.high
  obtain ⟨paletteLow, hp⟩ := ShiftRegister.holds_loadHalf b.paletteLow b.row.planes.paletteLow
  obtain ⟨paletteHigh, hq⟩ := ShiftRegister.holds_loadHalf b.paletteHigh b.row.planes.paletteHigh
  refine ⟨⟨low, high, paletteLow, paletteHigh⟩, ?_⟩
  rw [load_eq]
  exact ⟨hl, hh, hp, hq⟩

/-- The registers that show the bits of a column of a row show its pixel. -/
theorem pixel_of_bits {n j : Nat} {t : Row}
    (hl : (b.patternLow &&& (0x8000 >>> UInt16.ofNat n) != 0) = t.low.toNat.testBit (7 - j))
    (hh : (b.patternHigh &&& (0x8000 >>> UInt16.ofNat n) != 0) = t.high.toNat.testBit (7 - j))
    (hp : (b.paletteLow &&& (0x8000 >>> UInt16.ofNat n) != 0) = decide (t.palette % 2 = 1))
    (hq : (b.paletteHigh &&& (0x8000 >>> UInt16.ofNat n) != 0) =
      decide (t.palette / 2 % 2 = 1)) : b.pixel n = t.pixel j := by
  have h₄ : t.palette % 4 =
      (decide (t.palette % 2 = 1)).toNat + 2 * (decide (t.palette / 2 % 2 = 1)).toNat := by
    by_cases h₁ : t.palette % 2 = 1 <;> by_cases h₂ : t.palette / 2 % 2 = 1 <;>
      simp only [h₁, h₂, decide_true, decide_false, Bool.toNat_true, Bool.toNat_false] <;> omega
  unfold pixel Row.pixel
  rw [h₄]
  dsimp only
  rw [hl, hh, hp, hq]
  cases t.low.toNat.testBit (7 - j) <;> cases t.high.toNat.testBit (7 - j) <;>
    cases decide (t.palette % 2 = 1) <;> cases decide (t.palette / 2 % 2 = 1) <;> rfl

/-- **What is shown**: a pixel of the first row until it has left, then one of the second. -/
theorem Holds.pixel {r s : Row} (h : b.Holds r.planes s.planes i) {n : Nat} (hn : n < 8)
    (hi : i < 8) :
    b.pixel n = if n + i < 8 then r.pixel (n + i) else s.pixel (n + i - 8) := by
  have hl := h.low.bit hn hi
  have hh := h.high.bit hn hi
  have hp := h.paletteLow.bit hn hi
  have hq := h.paletteHigh.bit hn hi
  by_cases hni : n + i < 8
  · rw [if_pos hni] at hl hh hp hq ⊢
    rw [Row.paletteLow_planes, Row.testBit_spread _ (by omega)] at hp
    rw [Row.paletteHigh_planes, Row.testBit_spread _ (by omega)] at hq
    exact pixel_of_bits hl hh hp hq
  · have hj : 15 - (n + i) = 7 - (n + i - 8) := by omega
    rw [if_neg hni] at hl hh hp hq ⊢
    rw [hj] at hl hh hp hq
    rw [Row.paletteLow_planes, Row.testBit_spread _ (by omega)] at hp
    rw [Row.paletteHigh_planes, Row.testBit_spread _ (by omega)] at hq
    exact pixel_of_bits hl hh hp hq

end Background
end Ppu
end Famicom
