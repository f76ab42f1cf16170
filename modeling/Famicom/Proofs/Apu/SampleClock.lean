/-
# How many samples there are

The resampler has a clock that counts cycles.  A cycle puts one on it, and when the cycles in a
sample are on it they are taken off and there is a sample.  Both are numbers with 53 digits: for
most rates the cycles in a sample are not exact, and the clock may have to be rounded.

Up to the rate of the processor's clock all can be told in units of the last digit of the cycles in
a sample (`Apu.Resampler.exists_units`).  A cycle is a whole number of units, and so is what the
clock shows.  A digit is lost only when a sample is due, and then it is a unit at most
(`Apu.Resampler.KeepsTime.tick`), so that for the forty years that `2 ^ 51` cycles take the samples
keep to the rate.  Above it several samples would be due in a cycle, but there is never more than
one (`Apu.Resampler.KeepsUp.tick`).
-/

import Famicom.Proofs.Double.Arithmetic
import Famicom.Proofs.Memory.Twin

namespace Famicom
namespace Apu

open Double (HasDigits IsNearest Shows Tame)

namespace Resampler

variable {r : Resampler}

/-- **What a cycle does**: the clock goes on by one, and if a sample is due it goes back by the
cycles in a sample. -/
theorem tick_cases (r : Resampler) (level : Float32) :
    (r.cyclesPerSample ≤ r.clock + 1.0 ∧ (r.tick level).clock = r.clock + 1.0 - r.cyclesPerSample ∧
      (r.tick level).samples.size = r.samples.size + 1) ∨
    (¬ r.cyclesPerSample ≤ r.clock + 1.0 ∧ (r.tick level).clock = r.clock + 1.0 ∧
      (r.tick level).samples.size = r.samples.size) := by
  unfold tick
  dsimp only
  split_ifs with h
  · exact .inl ⟨h, rfl, Array.size_push _⟩
  · exact .inr ⟨h, rfl, rfl⟩

/-- The length of a sample is set once, when the unit is made. -/
theorem cyclesPerSample_tick (r : Resampler) (level : Float32) :
    (r.tick level).cyclesPerSample = r.cyclesPerSample := by
  have hr : (r.tick level).rate = r.rate := by
    unfold tick
    dsimp only
    split_ifs <;> rfl
  unfold cyclesPerSample
  rw [hr]

/-! ### A rate that is not above the clock -/

/-- The clock counts in units of `2 ^ -j` cycles, of which `m` are a sample.  So many cycles have
passed, and what has been lost to rounding is at most a unit for every sample. -/
structure KeepsTime (m j n : ℕ) (r : Resampler) : Prop where
  cyclesPerSample : Shows r.cyclesPerSample (m * 2 ^ (-j : ℤ))
  clock : ∃ u : ℕ, u ≤ m ∧ Shows r.clock (u * 2 ^ (-j : ℤ)) ∧
    |(u : ℚ) + r.samples.size * m - n * 2 ^ j| ≤ r.samples.size
  size_le : r.samples.size ≤ n

section

variable {m j n : ℕ}

/-- Counted in units of that length no time of the clock is too large or too small for the
format. -/
theorem tame_units {w : ℕ} (hw : 0 < w) (hw' : w ≤ 2 ^ 54) (hj : j ≤ 52) :
    Tame (w * 2 ^ (-j : ℤ)) := by
  have h₁ : (1 : ℚ) ≤ w := by exact_mod_cast hw
  have h₂ : (w : ℚ) ≤ 2 ^ 54 := by exact_mod_cast hw'
  have hlow : (2 : ℚ) ^ (-52 : ℤ) ≤ 2 ^ (-j : ℤ) := zpow_le_zpow_right₀ (by norm_num) (by omega)
  have hhigh : (2 : ℚ) ^ (-j : ℤ) ≤ 2 ^ (0 : ℤ) := zpow_le_zpow_right₀ (by norm_num) (by omega)
  constructor
  · calc (2 : ℚ) ^ (-100 : ℤ) ≤ 1 * 2 ^ (-52 : ℤ) := by norm_num
      _ ≤ w * 2 ^ (-j : ℤ) := by gcongr
  · calc (w : ℚ) * 2 ^ (-j : ℤ) ≤ 2 ^ 54 * 2 ^ (0 : ℤ) := by gcongr
      _ ≤ 2 ^ (100 : ℤ) := by norm_num

/-- The clock goes on by a cycle.  If a digit has to be dropped, a sample is due. -/
theorem shows_clock_add_one {u : ℕ} (hj : j ≤ 52) (hm : 2 ^ 52 ≤ m) (hm' : m < 2 ^ 53) (hu : u ≤ m)
    (hc : Shows r.clock (u * 2 ^ (-j : ℤ))) :
    ∃ w : ℕ, Shows (r.clock + 1.0) (w * 2 ^ (-j : ℤ)) ∧ w ≤ 2 * m ∧
      (w = u + 2 ^ j ∨ m ≤ w ∧ |(w : ℚ) - (u + 2 ^ j)| ≤ 1) := by
  have hpos : (0 : ℚ) < 2 ^ (-j : ℤ) := by positivity
  have hone : (2 : ℕ) ^ j ≤ 2 ^ 52 := Nat.pow_le_pow_right (by norm_num) hj
  have hsum : (u : ℚ) * 2 ^ (-j : ℤ) + 1 = (u + 2 ^ j : ℕ) * 2 ^ (-j : ℤ) := by
    push_cast
    rw [add_mul, zpow_neg, zpow_natCast, mul_inv_cancel₀ (by positivity)]
  have htame : Tame ((u + 2 ^ j : ℕ) * 2 ^ (-j : ℤ)) := tame_units (by positivity) (by omega) hj
  obtain ⟨s, hs, hnear⟩ := hc.add Double.shows_one (by rwa [hsum])
  rw [hsum] at hnear
  rcases Nat.le_total (u + 2 ^ j) (2 ^ 53) with hle | hge
  · rw [hnear.eq_of_hasDigits ⟨_, _, hle, rfl⟩] at hs
    exact ⟨_, hs, by omega, .inl rfl⟩
  · -- a digit more than there is room for
    have hlow : (2 : ℚ) ^ 53 * 2 ^ (-j : ℤ) ≤ s := by
      refine hnear.ge_of_ge ⟨2 ^ 53, _, le_rfl, by push_cast; rfl⟩ ?_
      exact mul_le_mul_of_nonneg_right (by exact_mod_cast hge) hpos.le
    have hhigh : s ≤ (2 * m : ℕ) * 2 ^ (-j : ℤ) := by
      refine hnear.le_of_le ⟨m, -j + 1, hm'.le, ?_⟩ ?_
      · rw [zpow_add_one₀ (by norm_num)]
        push_cast
        ring
      · exact mul_le_mul_of_nonneg_right (by exact_mod_cast (by omega)) hpos.le
    have herr : |s - (u + 2 ^ j : ℕ) * 2 ^ (-j : ℤ)| ≤ 2 ^ (-j : ℤ) := by
      have htwo : (2 : ℚ) ^ (-j + 1 : ℤ) = 2 * 2 ^ (-j : ℤ) := by
        rw [zpow_add_one₀ (by norm_num), mul_comm]
      have hbound : ((u + 2 ^ j : ℕ) : ℚ) * 2 ^ (-j : ℤ) ≤ 2 ^ 53 * 2 ^ (-j + 1 : ℤ) := by
        have hu' : ((u + 2 ^ j : ℕ) : ℚ) ≤ 2 ^ 54 := by exact_mod_cast (by omega)
        rw [htwo, ← mul_assoc]
        exact mul_le_mul_of_nonneg_right (hu'.trans (by norm_num)) hpos.le
      have := hnear.abs_sub_le_half (by positivity) hbound
      rwa [htwo, mul_div_cancel_left₀ _ (by norm_num)] at this
    obtain hsmall | ⟨w, rfl⟩ := hnear.hasDigits.le_or_multiple (-j)
    · have := le_of_mul_le_mul_right (hlow.trans hsmall) hpos
      norm_num at this
    · have hw : 2 ^ 53 ≤ w := by exact_mod_cast le_of_mul_le_mul_right hlow hpos
      have hw' : w ≤ 2 * m := by exact_mod_cast le_of_mul_le_mul_right hhigh hpos
      refine ⟨w, hs, hw', .inr ⟨by omega, ?_⟩⟩
      rw [← sub_mul, abs_mul, abs_of_pos hpos] at herr
      push_cast at herr
      exact le_of_mul_le_mul_right (herr.trans_eq (one_mul _).symm) hpos

/-- **A cycle keeps the time**, but for a unit if there is a sample. -/
theorem KeepsTime.tick (h : KeepsTime m j n r) (hj : j ≤ 52) (hm : 2 ^ 52 ≤ m) (hm' : m < 2 ^ 53)
    (level : Float32) : KeepsTime m j (n + 1) (r.tick level) := by
  have hpos : (0 : ℚ) < 2 ^ (-j : ℤ) := by positivity
  obtain ⟨u, hu, hc, hk⟩ := h.clock
  obtain ⟨w, hw, hle, hw'⟩ := shows_clock_add_one hj hm hm' hu hc
  have hone : (2 : ℕ) ^ j ≤ 2 ^ 52 := Nat.pow_le_pow_right (by norm_num) hj
  have hdue : r.cyclesPerSample ≤ r.clock + 1.0 ↔ m ≤ w := by
    rw [h.cyclesPerSample.le_iff hw, mul_le_mul_iff_left₀ hpos, Nat.cast_le]
  have hcps : Shows (r.tick level).cyclesPerSample (m * 2 ^ (-j : ℤ)) := by
    rw [cyclesPerSample_tick]
    exact h.cyclesPerSample
  obtain ⟨hd, hclock, hsize⟩ | ⟨hd, hclock, hsize⟩ := r.tick_cases level
  · -- a sample: what is taken off is a number of units, and so is the rest
    have hmw := hdue.1 hd
    have hrest : (w : ℚ) * 2 ^ (-j : ℤ) - m * 2 ^ (-j : ℤ) = (w - m : ℕ) * 2 ^ (-j : ℤ) := by
      rw [← sub_mul, Nat.cast_sub hmw]
    have hsub : Shows (r.clock + 1.0 - r.cyclesPerSample) ((w - m : ℕ) * 2 ^ (-j : ℤ)) := by
      obtain ⟨s, hs, hnear⟩ := hw.sub h.cyclesPerSample (by gcongr) (by
        rw [hrest]
        rcases Nat.eq_zero_or_pos (w - m) with hz | hp
        · left
          rw [hz, Nat.cast_zero, zero_mul]
        · exact .inr (tame_units hp (by omega) hj))
      rw [hrest] at hnear
      rwa [hnear.eq_of_hasDigits ⟨_, _, by omega, rfl⟩] at hs
    refine ⟨hcps, ⟨w - m, by omega, by rwa [hclock], ?_⟩,
      by rw [hsize]; exact Nat.succ_le_succ h.size_le⟩
    have herr : |(w : ℚ) - (u + 2 ^ j)| ≤ 1 := by
      rcases hw' with rfl | ⟨-, he⟩
      · push_cast
        rw [sub_self, abs_zero]
        exact zero_le_one
      · exact he
    rw [hsize, Nat.cast_sub hmw]
    push_cast
    calc |(w : ℚ) - m + (r.samples.size + 1) * m - (n + 1) * 2 ^ j|
        = |((u : ℚ) + r.samples.size * m - n * 2 ^ j) + ((w : ℚ) - (u + 2 ^ j))| := by ring_nf
      _ ≤ |(u : ℚ) + r.samples.size * m - n * 2 ^ j| + |(w : ℚ) - (u + 2 ^ j)| := abs_add_le ..
      _ ≤ r.samples.size + 1 := add_le_add hk herr
  · have hwu : w = u + 2 ^ j := hw'.resolve_right fun h => hd (hdue.2 h.1)
    refine ⟨hcps, ⟨w, (Nat.lt_of_not_le fun h => hd (hdue.2 h)).le, by rwa [hclock], ?_⟩,
      by rw [hsize]; exact h.size_le.trans (Nat.le_succ n)⟩
    rw [hsize, hwu]
    push_cast
    calc |(u : ℚ) + 2 ^ j + r.samples.size * m - (n + 1) * 2 ^ j|
        = |(u : ℚ) + r.samples.size * m - n * 2 ^ j| := by ring_nf
      _ ≤ r.samples.size := hk

/-- **The cycles in a sample** are as near to the quotient as can be. -/
theorem shows_cyclesPerSample {rate : ℕ} (h₁ : 1 ≤ rate) (h₂ : rate < 2 ^ 32) :
    ∃ x, Shows (ofRate rate).cyclesPerSample x ∧ IsNearest (cyclesPerSecond / rate) x := by
  have hrate : (1 : ℚ) ≤ rate := by exact_mod_cast h₁
  have hrate' : (rate : ℚ) ≤ 2 ^ 32 := by exact_mod_cast h₂.le
  have hc : (cyclesPerSecond : ℚ) = 1789773 := by norm_num [cyclesPerSecond]
  have htame : Tame (cyclesPerSecond / rate) := by
    constructor
    · rw [le_div_iff₀ (by linarith), hc]
      calc (2 : ℚ) ^ (-100 : ℤ) * rate ≤ 2 ^ (-100 : ℤ) * 2 ^ 32 := by gcongr
        _ ≤ 1789773 := by norm_num
    · rw [div_le_iff₀ (by linarith), hc]
      norm_num
      linarith
  have hmax : (ofRate rate).rate = rate := max_eq_left h₁
  have hs : Shows (ofRate rate).rate.toFloat rate := by
    rw [hmax]
    exact Double.shows_toFloat h₁ (h₂.trans (by norm_num))
  have hn : Shows cyclesPerSecond.toFloat cyclesPerSecond :=
    Double.shows_toFloat (by decide) (by decide)
  exact hn.div hs (by rw [hc]; norm_num) (by linarith) htame

/-- For a rate that is not above the clock they are a number of units, of which a whole number is a
cycle. -/
theorem exists_units {rate : ℕ} (h₁ : 1 ≤ rate) (h₂ : rate ≤ cyclesPerSecond) :
    ∃ m j : ℕ, j ≤ 52 ∧ 2 ^ 52 ≤ m ∧ m < 2 ^ 53 ∧
      Shows (ofRate rate).cyclesPerSample (m * 2 ^ (-j : ℤ)) ∧
      |m * 2 ^ (-j : ℤ) - (cyclesPerSecond / rate : ℚ)| ≤ 2 ^ (-j : ℤ) / 2 := by
  have hrate : (1 : ℚ) ≤ rate := by exact_mod_cast h₁
  have hrate' : (rate : ℚ) ≤ cyclesPerSecond := by exact_mod_cast h₂
  have hc : (cyclesPerSecond : ℚ) = 1789773 := by norm_num [cyclesPerSecond]
  obtain ⟨x, hx, hnear⟩ := shows_cyclesPerSample h₁ (h₂.trans_lt (by decide))
  have hone : 1 ≤ x := by
    refine hnear.ge_of_ge Double.hasDigits_one ?_
    rwa [le_div_iff₀ (by linarith), one_mul]
  have hle : x ≤ 2 ^ (21 : ℤ) := by
    refine hnear.le_of_le (Double.hasDigits_two_pow 21) ?_
    rw [div_le_iff₀ (by linarith), hc]
    norm_num
    linarith
  obtain rfl | ⟨m, e, hm, hm', rfl⟩ := hx.eq_zero_or
  · norm_num at hone
  have hl : (2 : ℚ) ^ 52 ≤ m := by exact_mod_cast hm
  have hu : (m : ℚ) < 2 ^ 53 := by exact_mod_cast hm'
  have hpos : (0 : ℚ) < 2 ^ e := by positivity
  have he : e < 0 := by
    have : (2 : ℚ) ^ (52 + e) ≤ 2 ^ (21 : ℤ) := by
      rw [zpow_add₀ (by norm_num)]
      exact (mul_le_mul_of_nonneg_right hl hpos.le).trans hle
    rw [zpow_le_zpow_iff_right₀ (by norm_num)] at this
    omega
  have he' : -53 < e := by
    have : (2 : ℚ) ^ (0 : ℤ) < 2 ^ (53 + e) := by
      rw [zpow_add₀ (by norm_num), zpow_zero]
      exact hone.trans_lt (mul_lt_mul_of_pos_right hu hpos)
    rw [zpow_lt_zpow_iff_right₀ (by norm_num)] at this
    omega
  obtain ⟨j, rfl⟩ : ∃ j : ℕ, e = -j := ⟨(-e).toNat, by omega⟩
  refine ⟨m, j, by omega, hm, hm', hx, hnear.abs_sub_le_half (by positivity) ?_⟩
  -- a quotient with more digits before the point would have been rounded to a number with as many
  by_contra hn
  have := hnear.ge_of_ge ⟨2 ^ 53, -j, le_rfl, by push_cast; rfl⟩ (not_le.1 hn).le
  exact absurd (le_of_mul_le_mul_right this hpos) (not_le.2 hu)

end

/-! ### A rate that is not below the clock -/

/-- There has been a sample in every cycle, and the clock has not run away. -/
structure KeepsUp (x : ℚ) (n : ℕ) (r : Resampler) : Prop where
  cyclesPerSample : Shows r.cyclesPerSample x
  clock : ∃ c, Shows r.clock c ∧ c ≤ 2 ^ 54
  size_eq : r.samples.size = n

section

variable {x c s : ℚ} {n : ℕ}

/-- From `2 ^ 54` on adding one does not move the clock. -/
theorem le_of_isNearest_add_one (hc : c ≤ 2 ^ 54) (h : IsNearest (c + 1) s) : s ≤ 2 ^ 54 := by
  have hd : HasDigits (2 ^ 54) := Double.hasDigits_two_pow 54
  rcases le_or_gt (c + 1) (2 ^ 54) with hle | hgt
  · exact h.le_of_le hd hle
  · by_contra hn
    have hgap := h.hasDigits.add_le_of_lt (k := 2) (by norm_num at hn ⊢; exact hn)
    have hdist := h.abs_sub_le _ hd
    rw [abs_of_nonneg (by norm_num at hgap hc ⊢; linarith), abs_of_nonpos (by linarith)] at hdist
    norm_num at hgap hc hdist hgt
    linarith

/-- What is left on the clock is nothing, or not so small that digits would be lost. -/
theorem eq_zero_or_tame_sub (hs : HasDigits s) (hs₁ : 1 ≤ s) (hs₂ : s ≤ 2 ^ 54) (hx : HasDigits x)
    (hx₀ : 0 ≤ x) (hx₁ : x ≤ 1) : s - x = 0 ∨ Tame (s - x) := by
  have hlow : s - x = 0 ∨ (2 : ℚ) ^ (-64 : ℤ) ≤ s - x := by
    obtain hsmall | ⟨i, rfl⟩ := hx.le_or_multiple (-64)
    · right
      norm_num at hsmall ⊢
      linarith
    obtain hsmall | ⟨k, rfl⟩ := hs.le_or_multiple (-64)
    · norm_num at hsmall
      linarith
    have hpos : (0 : ℚ) < 2 ^ (-64 : ℤ) := by positivity
    have hik : i ≤ k := by exact_mod_cast le_of_mul_le_mul_right (hx₁.trans hs₁) hpos
    rw [← sub_mul, ← Nat.cast_sub hik]
    rcases Nat.eq_zero_or_pos (k - i) with hz | hp
    · left
      rw [hz, Nat.cast_zero, zero_mul]
    · right
      have hone : (1 : ℚ) ≤ (k - i : ℕ) := by exact_mod_cast hp
      exact le_mul_of_one_le_left hpos.le hone
  refine hlow.imp_right fun h => ⟨h.trans' (by norm_num), ?_⟩
  norm_num at hs₂ ⊢
  linarith

/-- **A sample in every cycle**: with one more on the clock it is always due. -/
theorem KeepsUp.tick (h : KeepsUp x n r) (hx₁ : x ≤ 1) (level : Float32) :
    KeepsUp x (n + 1) (r.tick level) := by
  obtain ⟨c, hc, hle⟩ := h.clock
  have hc₀ : 0 ≤ c := hc.nonneg
  have hx := h.cyclesPerSample
  obtain ⟨s, hs, hnear⟩ :=
    hc.add Double.shows_one ⟨by norm_num; linarith, by norm_num at hle ⊢; linarith⟩
  have hs₁ : 1 ≤ s := hnear.ge_of_ge Double.hasDigits_one (by linarith)
  have hs₂ : s ≤ 2 ^ 54 := le_of_isNearest_add_one hle hnear
  have hdue : r.cyclesPerSample ≤ r.clock + 1.0 := (hx.le_iff hs).2 (hx₁.trans hs₁)
  obtain ⟨-, hclock, hsize⟩ | ⟨hd, -⟩ := r.tick_cases level
  · obtain ⟨c', hc', hnear'⟩ := hs.sub hx (hx₁.trans hs₁)
      (eq_zero_or_tame_sub hs.hasDigits hs₁ hs₂ hx.hasDigits hx.nonneg hx₁)
    have hle' : c' ≤ s := hnear'.le_of_le hs.hasDigits (sub_le_self s hx.nonneg)
    exact ⟨by rwa [cyclesPerSample_tick], ⟨c', by rwa [hclock], hle'.trans hs₂⟩,
      by rw [hsize, h.size_eq]⟩
  · exact absurd hdue hd

end

end Resampler

/-- What is so of a resampler at power-on and lasts while it is given levels is so after any number
of cycles. -/
theorem resampler_iterate_tick {rate : ℕ} {P : ℕ → Resampler → Prop} (h₀ : P 0 (.ofRate rate))
    (step : ∀ n r level, P n r → P (n + 1) (r.tick level)) (n : ℕ) :
    P n (tick^[n] (ofRate rate)).resampler := by
  induction n with
  | zero => exact h₀
  | succ n ih =>
    rw [Function.iterate_succ_apply', resampler_tick]
    exact step n _ _ ih

/-- The number of samples after so many cycles from power-on. -/
def sampleCount (rate n : ℕ) : ℕ := (tick^[n] (ofRate rate)).samples.size

/-- **From the time the number of samples follows**: on the clock is no more than a sample, `unit`
is a small part of one, and so is what the cycles in a sample differ by from the quotient. -/
theorem abs_sub_div_lt {u m n k q unit : ℚ} (hunit : 0 < unit) (hm : 2 ^ 52 ≤ m) (hu₀ : 0 ≤ u)
    (hu : u ≤ m) (hk₀ : 0 ≤ k) (hk : k ≤ n) (hx : |m * unit - q| ≤ unit / 2)
    (htime : |u * unit + k * (m * unit) - n| ≤ k * unit) :
    |k - n / q| < 1 + (n + 1) / 2 ^ 51 := by
  obtain ⟨hx₁, hx₂⟩ := abs_le.1 hx
  obtain ⟨ht₁, ht₂⟩ := abs_le.1 htime
  have hclock₀ : 0 ≤ u * unit := mul_nonneg hu₀ hunit.le
  have hclock : u * unit ≤ m * unit := mul_le_mul_of_nonneg_right hu hunit.le
  -- how far `k` samples are from `k` exact ones
  have hd₁ := mul_le_mul_of_nonneg_left hx₁ hk₀
  have hd₂ := mul_le_mul_of_nonneg_left hx₂ hk₀
  -- how small a part of a sample a unit is
  have hsmall : (2 ^ 52 - 1 / 2) * unit ≤ q := by
    have := mul_le_mul_of_nonneg_right hm hunit.le
    linarith
  have hn₀ : 0 ≤ n := hk₀.trans hk
  have hsmall' := mul_le_mul_of_nonneg_left hsmall (by linarith : 0 ≤ n + 1)
  have hkn : k * unit ≤ n * unit := mul_le_mul_of_nonneg_right hk hunit.le
  have hnu : 0 ≤ n * unit := mul_nonneg hn₀ hunit.le
  have hq : 0 < q := lt_of_lt_of_le (by positivity) hsmall
  have hdiv : k - n / q = (k * q - n) / q := by field_simp
  rw [hdiv, abs_div, abs_of_pos hq, div_lt_iff₀ hq, abs_lt]
  exact ⟨by linarith, by linarith⟩

/-- Up to the clock the samples keep to the rate. -/
theorem abs_sampleCount_sub_lt {rate : ℕ} (h₁ : 1 ≤ rate) (h₂ : rate ≤ cyclesPerSecond) (n : ℕ) :
    |(sampleCount rate n : ℚ) - n * rate / cyclesPerSecond| < 1 + (n + 1) / 2 ^ 51 := by
  obtain ⟨m, j, hj, hm, hm', hcps, hx⟩ := Resampler.exists_units h₁ h₂
  have hclock : Shows (Resampler.ofRate rate).clock ((0 : ℕ) * 2 ^ (-j : ℤ)) := by
    rw [Nat.cast_zero, zero_mul]
    exact Double.shows_zero
  have h₀ : (Resampler.ofRate rate).KeepsTime m j 0 :=
    ⟨hcps, ⟨0, Nat.zero_le m, hclock, by simp [Resampler.ofRate]⟩, le_rfl⟩
  have h := resampler_iterate_tick (P := fun n r => r.KeepsTime m j n) h₀
    (fun n r level h => h.tick hj hm hm' level) n
  obtain ⟨u, hu, -, hk⟩ := h.clock
  have hunit : (0 : ℚ) < 2 ^ (-j : ℤ) := by positivity
  have hcycle : (2 : ℚ) ^ j * 2 ^ (-j : ℤ) = 1 := by
    rw [zpow_neg, zpow_natCast, mul_inv_cancel₀ (by positivity)]
  -- the time in cycles
  have htime := mul_le_mul_of_nonneg_right hk hunit.le
  rw [← abs_of_pos hunit, ← abs_mul, abs_of_pos hunit, sub_mul, add_mul, mul_assoc (n : ℚ), hcycle,
    mul_one, mul_assoc _ (m : ℚ)] at htime
  rw [← div_div_eq_mul_div]
  exact abs_sub_div_lt hunit (by exact_mod_cast hm) u.cast_nonneg (by exact_mod_cast hu)
    (Nat.cast_nonneg _)
    (by exact_mod_cast h.size_le) hx htime

/-- From the clock on there is a sample in every cycle. -/
theorem sampleCount_of_clock_le {rate : ℕ} (h₁ : cyclesPerSecond ≤ rate) (h₂ : rate < 2 ^ 32)
    (n : ℕ) : sampleCount rate n = n := by
  have hrate : 1 ≤ rate := le_trans (by decide) h₁
  obtain ⟨x, hx, hnear⟩ := Resampler.shows_cyclesPerSample hrate h₂
  have hx₁ : x ≤ 1 := by
    refine hnear.le_of_le Double.hasDigits_one ?_
    rw [div_le_one (by exact_mod_cast hrate)]
    exact_mod_cast h₁
  have h₀ : (Resampler.ofRate rate).KeepsUp x 0 := ⟨hx, ⟨0, Double.shows_zero, by norm_num⟩, rfl⟩
  exact (resampler_iterate_tick (P := fun n r => r.KeepsUp x n) h₀
    (fun n r level h => h.tick hx₁ level) n).size_eq

/-- **How many samples there are.**  Let `n` cycles pass from power-on at a rate of 32 bits.

Up to the rate of the clock the samples are as many as the rate says, but for less than two in the
first `2 ^ 51` cycles: what is missing or too much is less than one sample and one in `2 ^ 51` for
each cycle.

From the rate of the clock on there is a sample in every cycle and never more.  So they are as many
as the rate says, but for less than two, as long as less than two are missing, and from then on
they fall ever further behind. -/
theorem samples_of_rate (rate n : ℕ) (h₁ : 1 ≤ rate) (h₂ : rate < 2 ^ 32) :
    (rate ≤ cyclesPerSecond →
      |(sampleCount rate n : ℚ) - n * rate / cyclesPerSecond| < 1 + (n + 1) / 2 ^ 51 ∧
        (n < 2 ^ 51 → |(sampleCount rate n : ℚ) - n * rate / cyclesPerSecond| < 2)) ∧
    (cyclesPerSecond ≤ rate → sampleCount rate n = n ∧
      (|(sampleCount rate n : ℚ) - n * rate / cyclesPerSecond| < 2 ↔
        n * (rate - cyclesPerSecond) < 2 * cyclesPerSecond)) := by
  refine ⟨fun hle => ?_, fun hge => ?_⟩
  · have hlt := abs_sampleCount_sub_lt h₁ hle n
    refine ⟨hlt, fun hn => hlt.trans_le ?_⟩
    have hn' : (n : ℚ) + 1 ≤ 2 ^ 51 := by exact_mod_cast hn
    rw [← le_sub_iff_add_le', div_le_iff₀ (by positivity)]
    linarith
  · have hcount : sampleCount rate n = n := sampleCount_of_clock_le hge h₂ n
    refine ⟨hcount, ?_⟩
    have hc : (0 : ℚ) < cyclesPerSecond := by norm_num [cyclesPerSecond]
    have hdiff : (n : ℚ) - n * rate / cyclesPerSecond =
        -((n * (rate - cyclesPerSecond) : ℕ) / cyclesPerSecond) := by
      rw [Nat.cast_mul, Nat.cast_sub hge]
      field_simp
      ring
    rw [hcount, hdiff, abs_neg, abs_of_nonneg (div_nonneg (Nat.cast_nonneg _) hc.le),
      div_lt_iff₀ hc]
    exact_mod_cast Iff.rfl

/-- In a tenth of a second at the rate that is set if nobody says otherwise the samples keep to the
rate.  At twice the rate of the clock there are a thousand after a thousand cycles, where two
thousand would be due. -/
theorem samples_of_rate_twice :
    |(sampleCount defaultRate 178977 : ℚ) - (178977 : ℕ) * defaultRate / cyclesPerSecond| < 2 ∧
      sampleCount 3579546 1000 = 1000 ∧
      ¬ |(sampleCount 3579546 1000 : ℚ) - (1000 : ℕ) * (3579546 : ℕ) / cyclesPerSecond| < 2 := by
  obtain ⟨hbelow, -⟩ := samples_of_rate defaultRate 178977 (by decide) (by decide)
  obtain ⟨-, habove⟩ := samples_of_rate 3579546 1000 (by decide) (by decide)
  obtain ⟨hcount, hiff⟩ := habove (by decide)
  exact ⟨(hbelow (by decide)).2 (by decide), hcount, fun h => absurd (hiff.1 h) (by decide)⟩

end Apu
end Famicom
