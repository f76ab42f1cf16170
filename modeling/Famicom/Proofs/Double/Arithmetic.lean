/-
# Arithmetic with 53 digits

What the operations on the numbers of the processor give, for numbers that are not negative and
results that are far from the ends of the exponents.  Unpacked such a number is an integer of 53
digits and an exponent (`Double.Reads`), and an operation forms its result from these and rounds
it; packing the result loses nothing (`Double.Reads.unpack_pack`).  So of the number itself it can
be said what it shows (`Double.Shows`): a sum, a difference, a product and a quotient show the
nearest number to the exact one, comparing compares, and an integer that has no more than 53 digits
shows what it is.
-/

import Mathlib
import Famicom.Proofs.Double.Rounding

namespace Famicom
namespace Double

open Float.Model Float.Model.UnpackedFloat

/-! ### Numbers unpacked

A positive number is a mantissa of 53 digits with an exponent, and an operation on two of them is
the exact one followed by a rounding. -/

variable {a b : UnpackedFloat} {p q : ℚ}

/-- What is written with a mantissa of 53 digits has no more of them. -/
theorem Reads.hasDigits (h : Reads a p) : HasDigits p := by
  cases h with
  | zero => exact hasDigits_zero
  | finite _ _ upper => exact ⟨_, _, upper.le, rfl⟩

/-- Only numbers that are not negative are read. -/
theorem Reads.nonneg (h : Reads a p) : 0 ≤ p := by
  cases h with
  | zero => exact le_rfl
  | finite => positivity

/-- What is not zero has all of its 53 digits. -/
theorem Reads.eq_zero_or (h : Reads a p) :
    p = 0 ∨ ∃ (m : ℕ) (e : ℤ), 2 ^ 52 ≤ m ∧ m < 2 ^ 53 ∧ p = m * 2 ^ e := by
  cases h with
  | zero => exact .inl rfl
  | finite _ lower upper => exact .inr ⟨_, _, lower, upper, rfl⟩

/-- **A sum.** -/
theorem Reads.add (ha : Reads a p) (hb : Reads b q) (h : Tame (p + q)) :
    ∃ x, Reads (UnpackedFloat.add Format.binary64 a b) x ∧ IsNearest (p + q) x := by
  have hp := ha.hasDigits
  have hq := hb.hasDigits
  cases ha with
  | zero =>
    rw [zero_add]
    cases hb with
    | zero => exact ⟨0, .zero, isNearest_self hq⟩
    | finite h₀ hl hu he he' => exact ⟨_, .finite h₀ hl hu he he', isNearest_self hq⟩
  | @finite m₁ e₁ h₁ hl hu he he' =>
    cases hb with
    | zero =>
      rw [add_zero]
      exact ⟨_, .finite h₁ hl hu he he', isNearest_self hp⟩
    | @finite m₂ e₂ h₂ _ _ _ _ =>
      obtain ⟨n₁, hn₁, -, hv₁⟩ := decreaseExponent_eq m₁ (min_le_left e₁ e₂)
      obtain ⟨n₂, hn₂, -, hv₂⟩ := decreaseExponent_eq m₂ (min_le_right e₁ e₂)
      have hv : (m₁ : ℚ) * 2 ^ e₁ + m₂ * 2 ^ e₂ = (n₁ + n₂ : ℕ) * 2 ^ min e₁ e₂ := by
        rw [← hv₁, ← hv₂]
        push_cast
        ring
      rw [hv] at h ⊢
      rw [UnpackedFloat.add, hn₁, hn₂]
      exact reads_normalize (.inr h)

/-- **A difference** that is not negative. -/
theorem Reads.sub (ha : Reads a p) (hb : Reads b q) (hle : q ≤ p) (h : p - q = 0 ∨ Tame (p - q)) :
    ∃ x, Reads (UnpackedFloat.sub Format.binary64 a b) x ∧ IsNearest (p - q) x := by
  have hp := ha.hasDigits
  cases ha with
  | zero =>
    cases hb with
    | zero =>
      rw [sub_zero]
      exact ⟨0, .zero, isNearest_self hp⟩
    | finite h₀ =>
      exact absurd hle (not_le.2 (by positivity))
  | @finite m₁ e₁ h₁ hl hu he he' =>
    cases hb with
    | zero =>
      rw [sub_zero]
      exact ⟨_, .finite h₁ hl hu he he', isNearest_self hp⟩
    | @finite m₂ e₂ h₂ _ _ _ _ =>
      obtain ⟨n₁, hn₁, -, hv₁⟩ := decreaseExponent_eq m₁ (min_le_left e₁ e₂)
      obtain ⟨n₂, hn₂, -, hv₂⟩ := decreaseExponent_eq m₂ (min_le_right e₁ e₂)
      rw [← hv₁, ← hv₂] at hle
      have hn : n₂ ≤ n₁ := by
        have := le_of_mul_le_mul_right hle (by positivity)
        exact_mod_cast this
      have hv : (m₁ : ℚ) * 2 ^ e₁ - m₂ * 2 ^ e₂ = (n₁ - n₂ : ℕ) * 2 ^ min e₁ e₂ := by
        rw [← hv₁, ← hv₂, Nat.cast_sub hn]
        ring
      rw [hv] at h ⊢
      have hm : Sign.positive.apply n₁ - Sign.positive.apply n₂ = ((n₁ - n₂ : ℕ) : ℤ) := by
        rw [Nat.cast_sub hn]
        rfl
      rw [UnpackedFloat.sub, hn₁, hn₂]
      dsimp only
      rw [hm]
      exact reads_normalize h

/-- **A product** of positive numbers. -/
theorem Reads.mul (ha : Reads a p) (hb : Reads b q) (hp : 0 < p) (hq : 0 < q) (h : Tame (p * q)) :
    ∃ x, Reads (UnpackedFloat.mul Format.binary64 a b) x ∧ IsNearest (p * q) x := by
  cases ha with
  | zero => exact absurd hp (lt_irrefl 0)
  | @finite m₁ e₁ h₁ hl₁ _ _ _ =>
    cases hb with
    | zero => exact absurd hq (lt_irrefl 0)
    | @finite m₂ e₂ h₂ hl₂ _ _ _ =>
      have hv : (m₁ : ℚ) * 2 ^ e₁ * (m₂ * 2 ^ e₂) = (m₁ * m₂ : ℕ) * 2 ^ (e₁ + e₂) := by
        rw [zpow_add₀ (by norm_num)]
        push_cast
        ring
      rw [hv] at h ⊢
      exact reads_roundWithAccuracy (hl₁.trans (Nat.le_mul_of_pos_right _ h₂)) (describes_exact _) h

/-- The quotient of two integers, by its integer part and the remainder. -/
theorem describes_quotient (n : ℕ) {d : ℕ} (hd : 0 < d) :
    Describes (.ofMantissaAndAccuracy (n / d) (accuracyOfFraction (n % d) d)) (n / d) := by
  have hd' : (0 : ℚ) < d := by exact_mod_cast hd
  have hn : (n : ℚ) / d = (n / d : ℕ) + (n % d : ℕ) / d := by
    rw [div_eq_iff hd'.ne', add_mul, div_mul_cancel₀ _ hd'.ne']
    exact_mod_cast (Nat.div_add_mod' n d).symm
  have hr : n % d < d := Nat.mod_lt n hd
  rw [hn]
  generalize n / d = m, n % d = r at hr ⊢
  unfold accuracyOfFraction
  by_cases hz : r = 0
  · rw [if_pos hz, hz, Nat.cast_zero, zero_div, add_zero]
    exact describes_exact m
  have hpos : (0 : ℚ) < r / d := div_pos (by exact_mod_cast Nat.pos_of_ne_zero hz) hd'
  rw [if_neg hz]
  rcases lt_trichotomy (2 * r) d with hlt | heq | hgt
  · have hhalf : (r : ℚ) / d < 1 / 2 := by
      rw [div_lt_div_iff₀ hd' two_pos]
      exact_mod_cast (by omega : r * 2 < 1 * d)
    rw [Nat.compare_eq_lt.2 hlt]
    show (m : ℚ) + 0 < _ ∧ _ < (m : ℚ) + 0 + 1 / 2
    constructor <;> linarith
  · have hhalf : (r : ℚ) / d = 1 / 2 := by
      rw [div_eq_div_iff hd'.ne' two_ne_zero]
      exact_mod_cast (by omega : r * 2 = 1 * d)
    rw [Nat.compare_eq_eq.2 heq, hhalf]
    rfl
  · have hhalf : (1 : ℚ) / 2 < r / d := by
      rw [div_lt_div_iff₀ two_pos hd']
      exact_mod_cast (by omega : 1 * d < r * 2)
    have hone : (r : ℚ) / d < 1 := (div_lt_one hd').2 (by exact_mod_cast hr)
    rw [Nat.compare_eq_gt.2 hgt]
    show (m : ℚ) + 1 / 2 < _ ∧ _ < (m : ℚ) + 1 / 2 + 1 / 2
    constructor <;> linarith

/-- A quotient is formed with enough digits. -/
theorem divCore_eq {m₁ m₂ : ℕ} {e₁ e₂ : ℤ} (hl₁ : 2 ^ 52 ≤ m₁) (hu₁ : m₁ < 2 ^ 53)
    (hl₂ : 2 ^ 52 ≤ m₂) (hu₂ : m₂ < 2 ^ 53) (he : -1021 ≤ e₁ - e₂) :
    divCore Format.binary64 m₁ e₁ m₂ e₂ =
      (m₁ * 2 ^ 53 / m₂, e₁ - e₂ - 53, accuracyOfFraction (m₁ * 2 ^ 53 % m₂) m₂) := by
  have hmin : Format.binary64.minExponent = -1074 := by decide
  have hbits : Format.binary64.mantissaBits = 53 := by decide
  have ht :
      min (e₁ - e₂) (Format.binary64.targetExponent (totalExponent m₁ e₁ - totalExponent m₂ e₂)) =
      e₁ - e₂ - 53 := by
    rw [Format.targetExponent, totalExponent, totalExponent, hmin, hbits, log2_eq hl₁ hu₁,
      log2_eq hl₂ hu₂]
    omega
  have hs : (e₁ - e₂ - (e₁ - e₂ - 53)).toNat = 53 := by omega
  rw [divCore, ht, hs, Nat.shiftLeft_eq]

/-- **A quotient** of positive numbers. -/
theorem Reads.div (ha : Reads a p) (hb : Reads b q) (hp : 0 < p) (hq : 0 < q) (h : Tame (p / q)) :
    ∃ x, Reads (UnpackedFloat.div Format.binary64 a b) x ∧ IsNearest (p / q) x := by
  cases ha with
  | zero => exact absurd hp (lt_irrefl 0)
  | @finite m₁ e₁ h₁ hl₁ hu₁ _ _ =>
    cases hb with
    | zero => exact absurd hq (lt_irrefl 0)
    | @finite m₂ e₂ h₂ hl₂ hu₂ _ _ =>
      have hv :
          (m₁ : ℚ) * 2 ^ e₁ / (m₂ * 2 ^ e₂) = ((m₁ * 2 ^ 53 : ℕ) / m₂) * 2 ^ (e₁ - e₂ - 53) := by
        rw [zpow_sub₀ (by norm_num), zpow_sub₀ (by norm_num)]
        push_cast
        field_simp
      have hm₂ : (0 : ℚ) < m₂ := by exact_mod_cast h₂
      have hlow : 2 ^ 52 * m₂ ≤ m₁ * 2 ^ 53 := Nat.mul_le_mul hl₁ hu₂.le
      have hhigh : m₁ * 2 ^ 53 ≤ 2 ^ 54 * m₂ := by
        calc m₁ * 2 ^ 53 ≤ 2 ^ 53 * 2 ^ 53 := Nat.mul_le_mul_right _ hu₁.le
          _ = 2 ^ 54 * 2 ^ 52 := by norm_num
          _ ≤ 2 ^ 54 * m₂ := Nat.mul_le_mul_left _ hl₂
      rw [hv] at h ⊢
      obtain ⟨hj, -⟩ := h.exponent_bounds (by rw [le_div_iff₀ hm₂]; exact_mod_cast hlow)
        (by rw [div_le_iff₀ hm₂]; exact_mod_cast hhigh)
      rw [UnpackedFloat.div, divCore_eq hl₁ hu₁ hl₂ hu₂ (by omega)]
      exact reads_roundWithAccuracy ((Nat.le_div_iff_mul_le h₂).2 hlow) (describes_quotient _ h₂) h

/-- A number with 53 digits is below one whose last digit stands further up. -/
theorem lt_of_exponent_lt {m₁ m₂ : ℕ} {e₁ e₂ : ℤ} (hu : m₁ < 2 ^ 53) (hl : 2 ^ 52 ≤ m₂)
    (he : e₁ < e₂) : (m₁ : ℚ) * 2 ^ e₁ < m₂ * 2 ^ e₂ := by
  have hpos : (0 : ℚ) < 2 ^ e₁ := by positivity
  have hu' : (m₁ : ℚ) < 2 ^ 53 := by exact_mod_cast hu
  have hl' : (2 : ℚ) ^ 52 ≤ m₂ := by exact_mod_cast hl
  calc (m₁ : ℚ) * 2 ^ e₁ < 2 ^ 53 * 2 ^ e₁ := by gcongr
    _ = 2 ^ 52 * 2 ^ (e₁ + 1) := by rw [zpow_add_one₀ (by norm_num)]; ring
    _ ≤ m₂ * 2 ^ e₂ := by gcongr; norm_num; omega

/-- **Comparing compares**, first where the last digits stand and then the integers. -/
theorem Reads.le_iff (ha : Reads a p) (hb : Reads b q) : a.le b = true ↔ p ≤ q := by
  have hq := hb.nonneg
  cases ha with
  | zero =>
    cases hb with
    | zero => exact iff_of_true rfl le_rfl
    | finite => exact iff_of_true rfl hq
  | @finite m₁ e₁ h₁ hl₁ hu₁ _ _ =>
    cases hb with
    | zero => exact iff_of_false Bool.false_ne_true (not_le.2 (by positivity))
    | @finite m₂ e₂ h₂ hl₂ hu₂ _ _ =>
      show ((compare e₁ e₂).then (compare m₁ m₂)).isLE = true ↔ _
      rcases lt_trichotomy e₁ e₂ with hlt | rfl | hgt
      · rw [Int.compare_eq_lt.2 hlt]
        exact iff_of_true rfl (lt_of_exponent_lt hu₁ hl₂ hlt).le
      · have hpos : (0 : ℚ) < 2 ^ e₁ := by positivity
        rw [Int.compare_eq_eq.2 rfl, mul_le_mul_iff_left₀ hpos, Nat.cast_le]
        exact Nat.isLE_compare
      · rw [Int.compare_eq_gt.2 hgt]
        exact iff_of_false Bool.false_ne_true (not_le.2 (lt_of_exponent_lt hu₂ hl₁ hgt))

/-! ### Numbers packed in 64 bits -/

/-- The first digit is not packed, since it is always a one. -/
theorem toNat_append_ofNat {k m : ℕ} (hl : 2 ^ k ≤ m) (hu : m < 2 ^ (k + 1)) :
    (1#1 ++ BitVec.ofNat k m).toNat = m := by
  rw [pow_succ] at hu
  have hm : m % 2 ^ k = m - 2 ^ k := by
    rw [Nat.mod_eq_sub_mod hl, Nat.mod_eq_of_lt (by omega)]
  rw [BitVec.toNat_append, ← Nat.shiftLeft_add_eq_or_of_lt (BitVec.isLt _), Nat.shiftLeft_eq,
    BitVec.toNat_ofNat m, hm]
  show 1 * 2 ^ k + (m - 2 ^ k) = m
  omega

/-- A normal number is unpacked to its digits, the first of which is not written, and to its
exponent less the bias. -/
theorem unpack_eq_finite {spec : Format} {b : BitVec spec.numBits} {m : ℕ} {e : ℤ} (h₀ : 0 < m)
    (hlast : unpackExponent b ≠ -1#_) (hfirst : unpackExponent b ≠ 0#_) (hs : unpackSign b = 0#1)
    (hm : (1#1 ++ unpackMantissa b).toNat = m)
    (he : (unpackExponent b).toNat -
      ((spec.exponentBias : ℤ) + spec.mantissaBitsWithoutImplicit) = e) :
    UnpackedFloat.unpack spec b = .finite .positive m e h₀ := by
  subst hm he
  unfold UnpackedFloat.unpack
  rw [if_neg hlast, if_neg hfirst, hs]
  rfl

/-- The other way a number with 53 digits is packed part by part, its exponent with the bias. -/
theorem pack_finite {spec : Format} {m : ℕ} {e : ℤ} (h₀ : 0 < m) {n : ℕ}
    (he : e + spec.exponentBias + spec.mantissaBitsWithoutImplicit = n)
    (hn : n + 1 < 2 ^ spec.exponentBits) (hm : m.log2 + 1 = spec.mantissaBits) :
    UnpackedFloat.pack spec (.finite .positive m e h₀) =
      packComponents spec .positive (BitVec.ofNat _ n) (BitVec.ofNat _ m) := by
  rw [UnpackedFloat.pack, he, Int.toNat_natCast, if_neg hn.not_ge, if_pos hm]

/-- **What has been packed is there when it is unpacked.** -/
theorem Reads.unpack_pack (h : Reads a p) :
    UnpackedFloat.unpack Format.binary64 (UnpackedFloat.pack Format.binary64 a) = a := by
  cases h with
  | zero => rfl
  | @finite m e h₀ hl hu he he' =>
    have hbias : Format.binary64.exponentBias = 1023 := by decide
    obtain ⟨n, hn⟩ : ∃ n : ℕ, e + 1023 + 52 = n := ⟨(e + 1023 + 52).toNat, by omega⟩
    have hexp : (BitVec.ofNat 11 n).toNat = n := by
      rw [BitVec.toNat_ofNat]
      exact Nat.mod_eq_of_lt (by omega)
    have hlast : (-1#11 : BitVec 11).toNat = 2047 := by decide
    rw [pack_finite h₀ (n := n) (by rw [hbias]; exact hn) (by show n + 1 < 2048; omega)
      (by rw [log2_eq hl hu]; decide)]
    -- the exponent is neither the highest nor the lowest, so the pattern is that of a normal number
    refine unpack_eq_finite h₀ ?_ ?_ ?_ ?_ ?_
    · rw [unpackExponent_packComponents]
      intro h
      have : n = 2047 := by rw [← hexp, ← hlast]; exact congrArg BitVec.toNat h
      omega
    · rw [unpackExponent_packComponents]
      intro h
      have : n = 0 := by rw [← hexp]; exact congrArg BitVec.toNat h
      omega
    · rw [unpackSign_packComponents]
      rfl
    · rw [unpackMantissa_packComponents]
      exact toNat_append_ofNat hl hu
    · rw [unpackExponent_packComponents, hbias]
      show ((BitVec.ofNat 11 n).toNat : ℤ) - (1023 + 52) = e
      omega

/-! ### Numbers as they are used

From here on the bits are out of sight: a number shows a rational, and an operation on two numbers
shows the rational nearest to the result, if that is not too large and not too small. -/

/-- A number of the processor that is not negative, and what it is. -/
def Shows (x : Float) (q : ℚ) : Prop := Reads x.toModel.unpack q

/-- What can be read of an unpacked number shows in the number that it is packed to. -/
theorem Reads.shows (h : Reads a p) : Shows (.ofModel (.pack a)) p := by
  show Reads (UnpackedFloat.unpack Format.binary64 (UnpackedFloat.pack Format.binary64 a)) p
  rwa [h.unpack_pack]

section

variable {x y : Float}

/-- The sum of two numbers is rounded to the nearest, -/
theorem Shows.add (hx : Shows x p) (hy : Shows y q) (h : Tame (p + q)) :
    ∃ s, Shows (x + y) s ∧ IsNearest (p + q) s :=
  let ⟨s, hs, hn⟩ := Reads.add hx hy h
  ⟨s, hs.shows, hn⟩

/-- so is the difference, if it is not negative: it may be nothing, which is exact, -/
theorem Shows.sub (hx : Shows x p) (hy : Shows y q) (hle : q ≤ p) (h : p - q = 0 ∨ Tame (p - q)) :
    ∃ s, Shows (x - y) s ∧ IsNearest (p - q) s :=
  let ⟨s, hs, hn⟩ := Reads.sub hx hy hle h
  ⟨s, hs.shows, hn⟩

/-- the product of two positive numbers, -/
theorem Shows.mul (hx : Shows x p) (hy : Shows y q) (hp : 0 < p) (hq : 0 < q) (h : Tame (p * q)) :
    ∃ s, Shows (x * y) s ∧ IsNearest (p * q) s :=
  let ⟨s, hs, hn⟩ := Reads.mul hx hy hp hq h
  ⟨s, hs.shows, hn⟩

/-- and the quotient. -/
theorem Shows.div (hx : Shows x p) (hy : Shows y q) (hp : 0 < p) (hq : 0 < q) (h : Tame (p / q)) :
    ∃ s, Shows (x / y) s ∧ IsNearest (p / q) s :=
  let ⟨s, hs, hn⟩ := Reads.div hx hy hp hq h
  ⟨s, hs.shows, hn⟩

/-- Numbers are compared as what they show. -/
theorem Shows.le_iff (hx : Shows x p) (hy : Shows y q) : x ≤ y ↔ p ≤ q :=
  decide_eq_true_iff.trans (Reads.le_iff hx hy)

/-- A positive number of 53 digits lies within the bounds. -/
theorem tame_natCast {n : ℕ} (h₀ : 0 < n) (hn : n ≤ 2 ^ 53) : Tame n := by
  have h₁ : (1 : ℚ) ≤ n := by exact_mod_cast h₀
  have h₂ : (n : ℚ) ≤ 2 ^ 53 := by exact_mod_cast hn
  exact ⟨by norm_num; linarith, by norm_num at h₂ ⊢; linarith⟩

/-- A natural number that has no more than 53 digits becomes what it is. -/
theorem reads_ofNat {n : ℕ} (h₀ : 0 < n) (hn : n ≤ 2 ^ 53) :
    Reads (UnpackedFloat.ofNat Format.binary64 n) n := by
  have ht : Tame ((n : ℚ) * 2 ^ (0 : ℤ)) := by
    rw [zpow_zero, mul_one]
    exact tame_natCast h₀ hn
  obtain ⟨x, hx, hnear⟩ := reads_normalize (.inr ht)
  rw [zpow_zero, mul_one] at hnear
  have hd : HasDigits n := ⟨n, 0, hn, by rw [zpow_zero, mul_one]⟩
  rw [hnear.eq_of_hasDigits hd] at hx
  exact hx

/-- The literal that the clock starts with shows one. -/
theorem shows_one : Shows 1.0 1 := by
  have h₁ : (1.0 : Float) = .ofModel (.pack (.finite .positive (2 ^ 52) (-52) (by norm_num))) := by
    decide +kernel
  have hr := Reads.finite (m := 2 ^ 52) (e := -52) (by norm_num) le_rfl (by norm_num) (by norm_num)
    (by norm_num)
  have hv : ((2 ^ 52 : ℕ) : ℚ) * 2 ^ (-52 : ℤ) = 1 := by norm_num
  rw [hv] at hr
  rw [h₁]
  exact hr.shows

/-- Zero has no digits, and shows itself. -/
theorem shows_zero : Shows 0 0 := by
  have h₀ : (0 : Float) = .ofModel (.pack (.zero .positive)) := by decide +kernel
  rw [h₀]
  exact Reads.zero.shows

/-- **An integer** becomes what it is. -/
theorem shows_toFloat {n : ℕ} (h₀ : 0 < n) (hn : n < 2 ^ 53) : Shows n.toFloat n := by
  have hone : Float.ofBits 0x3FF0000000000000 = 1.0 := by decide +kernel
  have he : n.toFloat = n.toUInt64.toFloat * 1.0 := by
    rw [← hone]
    show Float.ofScientific n false 0 = _
    rw [Float.ofScientific]
    exact dif_pos ⟨hn, by decide⟩
  have hu : Shows n.toUInt64.toFloat n := by
    have hn' : n.toUInt64.toNat = n := UInt64.toNat_ofNat_of_lt (hn.trans (by norm_num))
    show Shows (.ofModel (.pack (UnpackedFloat.ofNat Format.binary64 n.toUInt64.toNat))) n
    rw [hn']
    exact (reads_ofNat h₀ hn.le).shows
  have hpos : (0 : ℚ) < n := by exact_mod_cast h₀
  rw [he]
  obtain ⟨s, hs, hnear⟩ :=
    hu.mul shows_one hpos one_pos (by rw [mul_one]; exact tame_natCast h₀ hn.le)
  rw [mul_one] at hnear
  rwa [hnear.eq_of_hasDigits hu.hasDigits] at hs

end

end Double
end Famicom
