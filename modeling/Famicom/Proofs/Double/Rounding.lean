/-
# How a result is rounded

An operation forms its result with more digits than there is room for, or forms so many of them and
notes whether a rest is left: an integer part, the digit after it, and whether any other follows
(`Double.Describes`).  Digits are dropped until 53 are left, and each digit dropped goes into the
note.  What is left is then rounded to the nearest integer, or to the even one of two.  So the
number that comes out is the nearest one with 53 digits (`Double.reads_roundWithAccuracy`), as long
as the result is far from the ends of the exponents (`Double.Tame`).
-/

import Famicom.Proofs.Double.Nearest

namespace Famicom
namespace Double

open Float.Model Float.Model.UnpackedFloat

/-- The number that an integer part and the digit after it write. -/
def written (em : ExtendedMantissa) : ℚ := em.mantissa + if em.roundBit then 1 / 2 else 0

/-- What these two and the note whether more digits follow say of a number. -/
def Describes (em : ExtendedMantissa) (w : ℚ) : Prop :=
  if em.stickyBit then written em < w ∧ w < written em + 1 / 2 else w = written em

variable {em : ExtendedMantissa} {w : ℚ}

/-- The bit below the mantissa is worth a half. -/
theorem written_bounds (em : ExtendedMantissa) :
    em.mantissa ≤ written em ∧ written em ≤ em.mantissa + 1 / 2 := by
  unfold written
  split_ifs <;> constructor <;> linarith

/-- The rest of a number is less than the last digit of its mantissa. -/
theorem Describes.bounds (h : Describes em w) : em.mantissa ≤ w ∧ w < em.mantissa + 1 := by
  obtain ⟨hl, hu⟩ := written_bounds em
  unfold Describes at h
  split_ifs at h
  · exact ⟨by linarith, by linarith⟩
  · exact ⟨by linarith, by linarith⟩

/-- Halving moves the last digit of the integer part behind the point. -/
theorem written_shiftRightOne (em : ExtendedMantissa) :
    written em.shiftRightOne = em.mantissa / 2 := by
  have hm : (em.mantissa : ℚ) = 2 * (em.mantissa / 2 : ℕ) + (em.mantissa % 2 : ℕ) := by
    exact_mod_cast (Nat.div_add_mod em.mantissa 2).symm
  unfold written ExtendedMantissa.shiftRightOne
  dsimp only
  obtain h | h := Nat.mod_two_eq_zero_or_one em.mantissa
  · rw [h] at hm ⊢
    rw [hm]
    norm_num
  · rw [h] at hm ⊢
    rw [hm]
    norm_num
    ring

/-- **A digit is dropped**, and the note remembers it. -/
theorem Describes.shiftRightOne (h : Describes em w) : Describes em.shiftRightOne (w / 2) := by
  have hs : em.shiftRightOne.stickyBit = (em.roundBit || em.stickyBit) := rfl
  unfold Describes written at h
  unfold Describes
  rw [written_shiftRightOne, hs]
  cases hr : em.roundBit <;> cases hs : em.stickyBit <;>
    simp only [hr, hs, Bool.or_true, Bool.true_or, Bool.or_self, if_true, if_false,
      Bool.false_eq_true, add_zero] at h ⊢
  · rw [h]
  all_goals constructor <;> linarith

/-- A shift keeps what the three say of a number; the digits that it drops are noted. -/
theorem Describes.shiftRight (h : Describes em w) (n : ℕ) : Describes (em >>> n) (w / 2 ^ n) := by
  show Describes (n.repeat ExtendedMantissa.shiftRightOne em) _
  induction n with
  | zero =>
    rw [pow_zero, div_one]
    exact h
  | succ n ih =>
    rw [pow_succ, ← div_div]
    exact ih.shiftRightOne

/-- **Rounding** takes the nearest integer. -/
theorem Describes.abs_roundedMantissa_sub_le (h : Describes em w) :
    |em.roundedMantissa - w| ≤ 1 / 2 := by
  obtain ⟨m, r, s⟩ := em
  unfold Describes written at h
  unfold ExtendedMantissa.roundedMantissa
  rw [abs_le]
  cases r <;> cases s <;> simp only [if_true, if_false, Bool.false_eq_true, add_zero] at h <;>
    simp only [ExtendedMantissa.accuracy, Accuracy.roundToNearestEven]
  · exact ⟨by linarith, by linarith⟩
  · exact ⟨by linarith, by linarith⟩
  · -- halfway: the even one of the two
    obtain hm | hm := Nat.mod_two_eq_zero_or_one m <;> rw [hm] <;> push_cast <;>
      exact ⟨by linarith, by linarith⟩
  · push_cast
    exact ⟨by linarith, by linarith⟩

/-- Rounding does not pass a whole number from below, -/
theorem Describes.roundedMantissa_le (h : Describes em w) {b : ℕ} (hw : w ≤ b) :
    em.roundedMantissa ≤ b := by
  have := abs_le.1 h.abs_roundedMantissa_sub_le
  have hlt : (em.roundedMantissa : ℚ) < b + 1 := by linarith
  exact Nat.le_of_lt_succ (by exact_mod_cast hlt)

/-- nor from above. -/
theorem Describes.le_roundedMantissa (h : Describes em w) {b : ℕ} (hw : b ≤ w) :
    b ≤ em.roundedMantissa := by
  have := abs_le.1 h.abs_roundedMantissa_sub_le
  have hlt : (b : ℚ) < em.roundedMantissa + 1 := by linarith
  exact Nat.le_of_lt_succ (by exact_mod_cast hlt)

/-- An unpacked number that is not negative and has all of its 53 digits, and what it is.  The
exponents are those of the format, but for those of the smallest numbers, which have fewer
digits. -/
inductive Reads : UnpackedFloat → ℚ → Prop
  | zero : Reads (.zero .positive) 0
  | finite {m : ℕ} {e : ℤ} (h : 0 < m) (lower : 2 ^ 52 ≤ m) (upper : m < 2 ^ 53) (low : -1074 ≤ e)
    (high : e ≤ 971) : Reads (.finite .positive m e h) (m * 2 ^ e)

/-- A mantissa with 53 digits has its first one in place 52. -/
theorem log2_eq {m : ℕ} (lower : 2 ^ 52 ≤ m) (upper : m < 2 ^ 53) : m.log2 = 52 := by
  have hm : m ≠ 0 := by omega
  have hl : 52 ≤ m.log2 := (Nat.le_log2 hm).2 lower
  have hu : m.log2 < 53 := (Nat.log2_lt hm).2 upper
  omega

/-- Where the last digit is to stand. -/
theorem targetExponent_eq {m : ℕ} {e : ℤ} (h : -1022 ≤ m.log2 + e) :
    Format.binary64.targetExponent (totalExponent m e) = m.log2 + e - 52 := by
  have hmin : Format.binary64.minExponent = -1074 := by decide
  have hbits : Format.binary64.mantissaBits = 53 := by decide
  rw [Format.targetExponent, totalExponent, hmin, hbits]
  omega

/-- A number that is not too small is shifted until 53 digits are left of it. -/
theorem shiftToTargetExponent_eq {m : ℕ} {e : ℤ} (hm : 2 ^ 52 ≤ m) (h : -1022 ≤ m.log2 + e)
    (accuracy : Accuracy) : shiftToTargetExponent Format.binary64 m e accuracy =
      (ExtendedMantissa.ofMantissaAndAccuracy m accuracy >>> (m.log2 - 52),
        e + (m.log2 - 52 : ℕ)) := by
  have hl : 52 ≤ m.log2 := (Nat.le_log2 (by omega)).2 hm
  have hs : ((m.log2 : ℤ) + e - 52 - e).toNat = m.log2 - 52 := by omega
  rw [shiftToTargetExponent, targetExponent_eq h, shiftToExponent, hs]

/-- The note of what follows leaves the digits. -/
theorem mantissa_ofMantissaAndAccuracy (m : ℕ) (accuracy : Accuracy) :
    (ExtendedMantissa.ofMantissaAndAccuracy m accuracy).mantissa = m := by
  rcases accuracy with _ | (_ | _ | _) <;> rfl

/-- A number that is far from the ends of what the exponents of the format allow. -/
def Tame (q : ℚ) : Prop := 2 ^ (-100 : ℤ) ≤ q ∧ q ≤ 2 ^ (100 : ℤ)

/-- The last digit of a number within the bounds is in a place that has an exponent. -/
theorem Tame.exponent_bounds {w : ℚ} {j : ℤ} (h : Tame (w * 2 ^ j)) (hl : 2 ^ 52 ≤ w)
    (hu : w ≤ 2 ^ 54) : -154 ≤ j ∧ j ≤ 48 := by
  have hpos : (0 : ℚ) < 2 ^ j := by positivity
  have hlow : (2 : ℚ) ^ (-100 : ℤ) ≤ 2 ^ (54 + j) := by
    calc (2 : ℚ) ^ (-100 : ℤ) ≤ w * 2 ^ j := h.1
      _ ≤ 2 ^ 54 * 2 ^ j := by gcongr
      _ = 2 ^ (54 + j) := by rw [zpow_add₀ (by norm_num)]; rfl
  have hhigh : (2 : ℚ) ^ (52 + j) ≤ 2 ^ (100 : ℤ) := by
    calc (2 : ℚ) ^ (52 + j) = 2 ^ 52 * 2 ^ j := by rw [zpow_add₀ (by norm_num)]; rfl
      _ ≤ w * 2 ^ j := by gcongr
      _ ≤ 2 ^ (100 : ℤ) := h.2
  rw [zpow_le_zpow_iff_right₀ (by norm_num)] at hlow hhigh
  omega

/-- An integer part of 53 digits, or the least of 54. -/
theorem reads_shifted {r : ℕ} {j : ℤ} (hl : 2 ^ 52 ≤ r) (hu : r ≤ 2 ^ 53) (hj : -154 ≤ j ∧ j ≤ 48) :
    let shifted := shiftToTargetExponent Format.binary64 r j .exact
    Reads (if h : shifted.1.mantissa = 0 then .zero .positive
      else .finite .positive shifted.1.mantissa shifted.2 (Nat.pos_of_ne_zero h)) (r * 2 ^ j) := by
  intro shifted
  have hlog : 52 ≤ r.log2 := (Nat.le_log2 (by omega)).2 hl
  have hs : shifted = _ := shiftToTargetExponent_eq hl (by omega) .exact
  rcases hu.lt_or_eq with hlt | rfl
  · have hs' : shifted = (⟨r, false, false⟩, j) := by
      rw [hs, log2_eq hl hlt]
      exact Prod.ext rfl (add_zero j)
    rw [hs', dif_neg (show r ≠ 0 by omega)]
    exact .finite _ hl hlt (by omega) (by omega)
  · have hs' : shifted = (⟨2 ^ 52, false, false⟩, j + 1) := by
      rw [hs, Nat.log2_two_pow]
      rfl
    rw [hs', dif_neg (show (2 ^ 52 : ℕ) ≠ 0 by norm_num)]
    have hv : ((2 ^ 53 : ℕ) : ℚ) * 2 ^ j = (2 ^ 52 : ℕ) * 2 ^ (j + 1) := by
      rw [zpow_add_one₀ (by norm_num)]
      push_cast
      ring
    rw [hv]
    exact .finite _ le_rfl (by norm_num) (by omega) (by omega)

/-- **Rounding takes the nearest number.** -/
theorem reads_roundWithAccuracy {m : ℕ} {e : ℤ} {accuracy : Accuracy} {w : ℚ} (hm : 2 ^ 52 ≤ m)
    (h : Describes (.ofMantissaAndAccuracy m accuracy) w) (hq : Tame (w * 2 ^ e)) :
    ∃ x, Reads (roundWithAccuracy Format.binary64 .positive m e accuracy) x ∧
      IsNearest (w * 2 ^ e) x := by
  have hm₀ : m ≠ 0 := by omega
  obtain ⟨k, hk⟩ : ∃ k, m.log2 = 52 + k := Nat.exists_eq_add_of_le ((Nat.le_log2 hm₀).2 hm)
  -- the digits that stay are the first 53
  have hlow : (2 : ℚ) ^ 52 * 2 ^ k ≤ m := by
    rw [← pow_add, ← hk]
    exact_mod_cast Nat.log2_self_le hm₀
  have hhigh : (m : ℚ) + 1 ≤ 2 ^ 53 * 2 ^ k := by
    have : m < 2 ^ (53 + k) := (Nat.log2_lt hm₀).1 (by omega)
    rw [← pow_add]
    exact_mod_cast this
  obtain ⟨hwl, hwu⟩ := h.bounds
  rw [mantissa_ofMantissaAndAccuracy] at hwl hwu
  have hd := h.shiftRight k
  have hpos : (0 : ℚ) < 2 ^ k := by positivity
  have hl : 2 ^ 52 ≤ w / 2 ^ k := (le_div_iff₀ hpos).2 (hlow.trans hwl)
  have hu : w / 2 ^ k ≤ 2 ^ 53 := (div_le_iff₀ hpos).2 (hwu.le.trans hhigh)
  have hv : w * 2 ^ e = w / 2 ^ k * 2 ^ (e + k) := by
    rw [zpow_add₀ (by norm_num), zpow_natCast]
    field_simp
  rw [hv] at hq ⊢
  have hj := hq.exponent_bounds hl (hu.trans (by norm_num))
  have hr : 2 ^ 52 ≤ (ExtendedMantissa.ofMantissaAndAccuracy m accuracy >>> k).roundedMantissa :=
    hd.le_roundedMantissa (by exact_mod_cast hl)
  have hr' : (ExtendedMantissa.ofMantissaAndAccuracy m accuracy >>> k).roundedMantissa ≤ 2 ^ 53 :=
    hd.roundedMantissa_le (by exact_mod_cast hu)
  refine ⟨_, ?_, isNearest_of_abs_sub_le_half hl hr' hd.abs_roundedMantissa_sub_le _⟩
  rw [roundWithAccuracy, shiftToTargetExponent_eq hm (by omega), hk, Nat.add_sub_cancel_left]
  exact reads_shifted hr hr' hj

/-- A whole number says all of itself. -/
theorem describes_exact (m : ℕ) : Describes (.ofMantissaAndAccuracy m .exact) m := by
  show (m : ℚ) = m + 0
  rw [add_zero]

/-- With a smaller exponent the same number is written. -/
theorem decreaseExponent_eq (m : ℕ) {e t : ℤ} (h : t ≤ e) :
    ∃ n : ℕ, decreaseExponent m e t = (n, t) ∧ n = m * 2 ^ (e - t).toNat ∧
      (n : ℚ) * 2 ^ t = m * 2 ^ e := by
  refine ⟨m * 2 ^ (e - t).toNat, ?_, rfl, ?_⟩
  · rw [decreaseExponent, Nat.shiftLeft_eq]
    exact Prod.ext rfl (by dsimp only; omega)
  · have he : e = ((e - t).toNat : ℤ) + t := by omega
    conv_rhs => rw [he, zpow_add₀ (by norm_num), zpow_natCast]
    push_cast
    ring

/-- The same for an integer, which may have fewer digits. -/
theorem reads_round {m : ℕ} {e : ℤ} (hm : 0 < m) (hq : Tame (m * 2 ^ e)) :
    ∃ x, Reads (UnpackedFloat.round Format.binary64 .positive m e) x ∧ IsNearest (m * 2 ^ e) x := by
  have hm₀ : m ≠ 0 := hm.ne'
  -- the number is not so small that digits would be dropped
  have hlow : -1022 ≤ m.log2 + e := by
    have hlt : (m : ℚ) < 2 ^ ((m.log2 + 1 : ℕ) : ℤ) := by
      rw [zpow_natCast]
      exact_mod_cast Nat.lt_log2_self
    have hz : (2 : ℚ) ^ (-100 : ℤ) < 2 ^ (((m.log2 + 1 : ℕ) : ℤ) + e) := by
      rw [zpow_add₀ (by norm_num)]
      exact hq.1.trans_lt (by gcongr)
    rw [zpow_lt_zpow_iff_right₀ (by norm_num)] at hz
    omega
  rw [UnpackedFloat.round, targetExponent_eq hlow]
  by_cases hl : 52 ≤ m.log2
  · have hs : decreaseExponent m e (m.log2 + e - 52) = (m, e) := by
      have hz : (e - (m.log2 + e - 52)).toNat = 0 := by omega
      rw [decreaseExponent, hz]
      exact Prod.ext rfl (sub_zero e)
    rw [hs]
    exact reads_roundWithAccuracy ((Nat.le_log2 hm₀).1 hl) (describes_exact m) hq
  · obtain ⟨n, hn, hnm, hv⟩ := decreaseExponent_eq m (show (m.log2 + e - 52 : ℤ) ≤ e by omega)
    rw [hn]
    rw [← hv] at hq ⊢
    refine reads_roundWithAccuracy ?_ (describes_exact n) hq
    have hs : (e - (m.log2 + e - 52)).toNat = 52 - m.log2 := by omega
    rw [hnm, hs]
    calc 2 ^ 52 = 2 ^ m.log2 * 2 ^ (52 - m.log2) := by rw [← pow_add]; congr 1; omega
      _ ≤ m * 2 ^ (52 - m.log2) := Nat.mul_le_mul_right _ (Nat.log2_self_le hm₀)

/-- A sum or a difference that has been formed exactly is rounded so. -/
theorem reads_normalize {m : ℕ} {e : ℤ} (hq : (m : ℚ) * 2 ^ e = 0 ∨ Tame (m * 2 ^ e)) :
    ∃ x, Reads (UnpackedFloat.normalize Format.binary64 m e .positive) x ∧
      IsNearest (m * 2 ^ e) x := by
  rcases Nat.eq_zero_or_pos m with rfl | hm
  · have hz : ((0 : ℕ) : ℚ) * 2 ^ e = 0 := by rw [Nat.cast_zero, zero_mul]
    rw [hz]
    exact ⟨0, .zero, isNearest_self hasDigits_zero⟩
  · have hgt : compare (m : ℤ) 0 = .gt := Int.compare_eq_gt.2 (by exact_mod_cast hm)
    rw [UnpackedFloat.normalize, hgt]
    refine reads_round hm (hq.resolve_left ?_)
    positivity

end Double
end Famicom
