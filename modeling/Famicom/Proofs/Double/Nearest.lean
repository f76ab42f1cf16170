/-
# Numbers with 53 digits

A number of the clock that counts cycles has 53 binary digits, wherever its point is.  What an
operation gives is the nearest of these numbers to the exact result (`Double.IsNearest`).  Little
more is needed to bound what it loses: a result that has no more digits is exact, rounding does not
lead past a number with 53 digits, and it moves a number by half a unit of its last digit at most.

Among the numbers that are not small the ones with 53 digits are the multiples of a power of two
(`Double.HasDigits.le_or_multiple`), and from there to the nearest one is to the nearest integer
(`Double.isNearest_of_abs_sub_le_half`).
-/

import Mathlib.Algebra.Order.Field.Power
import Mathlib.Algebra.Order.Round
import Mathlib.Data.Rat.Floor
import Mathlib.Tactic.FieldSimp
import Mathlib.Tactic.Linarith
import Mathlib.Tactic.Positivity
import Mathlib.Tactic.Ring

namespace Famicom
namespace Double

/-- A number that 53 binary digits write, wherever the point is. -/
def HasDigits (q : ℚ) : Prop := ∃ (m : ℕ) (e : ℤ), m ≤ 2 ^ 53 ∧ q = m * 2 ^ e

/-- None of the numbers with 53 digits is nearer to `q` than `x`, which is one of them. -/
structure IsNearest (q x : ℚ) : Prop where
  hasDigits : HasDigits x
  abs_sub_le : ∀ y, HasDigits y → |x - q| ≤ |y - q|

variable {q x y : ℚ}

/-- Zero is among the numbers with 53 digits, -/
theorem hasDigits_zero : HasDigits 0 := ⟨0, 0, Nat.zero_le _, by norm_num⟩

/-- so is one, -/
theorem hasDigits_one : HasDigits 1 := ⟨1, 0, by norm_num, by norm_num⟩

/-- and so are the powers of two. -/
theorem hasDigits_two_pow (k : ℤ) : HasDigits (2 ^ k) := ⟨1, k, by norm_num, by norm_num⟩

/-- **Numbers with 53 digits that are not small** are multiples of a power of two. -/
theorem HasDigits.le_or_multiple (h : HasDigits x) (k : ℤ) :
    x ≤ 2 ^ 52 * 2 ^ k ∨ ∃ n : ℕ, x = n * 2 ^ k := by
  obtain ⟨m, e, hm, rfl⟩ := h
  rcases lt_or_ge e k with he | he
  · left
    have hm' : (m : ℚ) ≤ 2 ^ 53 := by exact_mod_cast hm
    have hk : (2 : ℚ) ^ e ≤ 2 ^ (k - 1) := zpow_le_zpow_right₀ (by norm_num) (by omega)
    calc (m : ℚ) * 2 ^ e ≤ 2 ^ 53 * 2 ^ (k - 1) := by gcongr
      _ = 2 ^ 52 * 2 ^ k := by
        rw [zpow_sub_one₀ (by norm_num)]
        ring
  · right
    refine ⟨m * 2 ^ (e - k).toNat, ?_⟩
    have hk : e = ((e - k).toNat : ℤ) + k := by omega
    rw [hk, zpow_add₀ (by norm_num), zpow_natCast]
    push_cast
    rw [Int.add_sub_cancel, Int.toNat_natCast]
    ring

/-- What lies above a power of two that is far from the last digit lies above it by the last
digit. -/
theorem HasDigits.add_le_of_lt (h : HasDigits x) {k : ℤ} (hx : 2 ^ 52 * 2 ^ k < x) :
    2 ^ 52 * 2 ^ k + 2 ^ k ≤ x := by
  obtain hle | ⟨n, rfl⟩ := h.le_or_multiple k
  · exact absurd hle (not_le.2 hx)
  · have hpos : (0 : ℚ) < 2 ^ k := by positivity
    have hn : (2 ^ 52 : ℕ) < n := by
      have := lt_of_mul_lt_mul_right hx hpos.le
      exact_mod_cast this
    have hn' : (2 : ℚ) ^ 52 + 1 ≤ n := by exact_mod_cast hn
    calc (2 : ℚ) ^ 52 * 2 ^ k + 2 ^ k = ((2 : ℚ) ^ 52 + 1) * 2 ^ k := by rw [add_one_mul]
      _ ≤ (n : ℚ) * 2 ^ k := mul_le_mul_of_nonneg_right hn' hpos.le

/-- A number with 53 digits is rounded to itself. -/
theorem isNearest_self (h : HasDigits q) : IsNearest q q :=
  ⟨h, fun y _ => by rw [sub_self, abs_zero]; exact abs_nonneg _⟩

namespace IsNearest

/-- **Nothing is lost** of a number with 53 digits. -/
theorem eq_of_hasDigits (h : IsNearest q x) (hq : HasDigits q) : x = q := by
  have hz := h.abs_sub_le q hq
  rw [sub_self, abs_zero] at hz
  exact sub_eq_zero.1 (abs_eq_zero.1 (le_antisymm hz (abs_nonneg _)))

/-- Rounding does not lead past a number with 53 digits, neither up -/
theorem le_of_le (h : IsNearest q x) (hy : HasDigits y) (hq : q ≤ y) : x ≤ y := by
  by_contra hn
  have hd := h.abs_sub_le y hy
  rw [abs_of_nonneg (by linarith), abs_of_nonneg (by linarith)] at hd
  linarith

/-- nor down. -/
theorem ge_of_ge (h : IsNearest q x) (hy : HasDigits y) (hq : y ≤ q) : y ≤ x := by
  by_contra hn
  have hd := h.abs_sub_le y hy
  rw [abs_of_nonpos (by linarith), abs_of_nonpos (by linarith)] at hd
  linarith

/-- **Rounding moves a number** by half a unit of the last digit at most. -/
theorem abs_sub_le_half (h : IsNearest q x) (hq : 0 ≤ q) {j : ℤ} (hj : q ≤ 2 ^ 53 * 2 ^ j) :
    |x - q| ≤ 2 ^ j / 2 := by
  have hpos : (0 : ℚ) < 2 ^ j := by positivity
  have hw : q / 2 ^ j ≤ 2 ^ 53 := (div_le_iff₀ hpos).2 hj
  have hr := abs_sub_round (q / 2 ^ j)
  have hr₀ : 0 ≤ round (q / 2 ^ j) := by
    rw [round_eq]
    exact Int.floor_nonneg.2 (by positivity)
  have hr₁ : round (q / 2 ^ j) ≤ 2 ^ 53 := by
    have : round (q / 2 ^ j) < 2 ^ 53 + 1 := by
      rw [round_eq, Int.floor_lt]
      push_cast
      linarith
    omega
  -- the nearest multiple of the unit has few enough digits, so nothing is nearer
  have hy : HasDigits (round (q / 2 ^ j) * 2 ^ j) := by
    refine ⟨(round (q / 2 ^ j)).toNat, j, by omega, ?_⟩
    rw [← Int.cast_natCast, Int.toNat_of_nonneg hr₀]
  refine (h.abs_sub_le _ hy).trans ?_
  have he : (round (q / 2 ^ j) : ℚ) * 2 ^ j - q = -(q / 2 ^ j - round (q / 2 ^ j)) * 2 ^ j := by
    field_simp
    ring
  rw [he, abs_mul, abs_neg, abs_of_pos hpos]
  calc |q / 2 ^ j - round (q / 2 ^ j)| * 2 ^ j ≤ 1 / 2 * 2 ^ j := by gcongr
    _ = 2 ^ j / 2 := by ring

end IsNearest

/-- A natural number within a half of a number is nearest to it among the natural numbers. -/
theorem abs_sub_le_abs_sub {w : ℚ} {r : ℕ} (h : |r - w| ≤ 1 / 2) (i : ℕ) : |r - w| ≤ |i - w| := by
  rcases eq_or_ne i r with rfl | hne
  · exact le_rfl
  · have hone : (1 : ℚ) ≤ |(i : ℚ) - r| := by
      exact_mod_cast Int.one_le_abs (show (i : ℤ) - r ≠ 0 by omega)
    have htri : |(i : ℚ) - r| ≤ |(i : ℚ) - w| + |(r : ℚ) - w| := by
      have := abs_sub_le (i : ℚ) w r
      rwa [abs_sub_comm w] at this
    linarith

/-- **The nearest number is the one with the nearest last digit.** -/
theorem isNearest_of_abs_sub_le_half {w : ℚ} {r : ℕ} (hw : 2 ^ 52 ≤ w) (hr : r ≤ 2 ^ 53)
    (h : |r - w| ≤ 1 / 2) (j : ℤ) : IsNearest (w * 2 ^ j) (r * 2 ^ j) where
  hasDigits := ⟨r, j, hr, rfl⟩
  abs_sub_le y hy := by
    have hpos : (0 : ℚ) < 2 ^ j := by positivity
    rw [← sub_mul, abs_mul, abs_of_pos hpos]
    obtain hle | ⟨n, rfl⟩ := hy.le_or_multiple j
    · -- of these numbers the highest one is nearest, and the nearest integer is nearer
      have hlow : |(r : ℚ) - w| ≤ w - 2 ^ 52 := by
        have := abs_sub_le_abs_sub h (2 ^ 52)
        rwa [Nat.cast_pow, Nat.cast_ofNat, abs_of_nonpos (sub_nonpos.2 hw), neg_sub] at this
      have hge : w * 2 ^ j - 2 ^ 52 * 2 ^ j ≤ |y - w * 2 ^ j| := by
        rw [abs_sub_comm]
        exact (sub_le_sub_left hle _).trans (le_abs_self _)
      calc |(r : ℚ) - w| * 2 ^ j ≤ (w - 2 ^ 52) * 2 ^ j := by gcongr
        _ = w * 2 ^ j - 2 ^ 52 * 2 ^ j := sub_mul ..
        _ ≤ |y - w * 2 ^ j| := hge
    · rw [← sub_mul, abs_mul, abs_of_pos hpos]
      exact mul_le_mul_of_nonneg_right (abs_sub_le_abs_sub h n) hpos.le

end Double
end Famicom
