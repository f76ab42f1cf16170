/-
# Digits and numerals

Letters, digits and blanks are told by their numbers, and are three different things.  What is read
as the numeral of a byte is one as it is commonly understood: decimal digits, perhaps behind a plus
sign, whose value fits a byte (`Text.isByte_of_readNumeral`).
-/

import Famicom.Text.Blank
import Famicom.Text.Numeral

namespace Famicom
namespace Text

/-! ### Characters -/

section Characters

variable {c : Char}

/-- Letters by their numbers. -/
theorem isAlpha_iff : c.isAlpha ↔ 65 ≤ c.toNat ∧ c.toNat ≤ 90 ∨ 97 ≤ c.toNat ∧ c.toNat ≤ 122 := by
  show (decide (c.val ≥ 'A'.val ∧ c.val ≤ 'Z'.val) || decide (c.val ≥ 'a'.val) &&
    decide (c.val ≤ 'z'.val)) =
    true ↔ _
  rw [Bool.or_eq_true, Bool.and_eq_true, decide_eq_true_iff, decide_eq_true_iff, decide_eq_true_iff]
  exact Iff.rfl

/-- What is a small letter in lower case has been a letter before. -/
theorem isAlpha_of_isLower_toLower (h : c.toLower.isLower) : c.isAlpha := by
  show (c.isUpper || c.isLower) = true
  by_cases hu : c.isUpper = true
  · rw [hu, Bool.true_or]
  · have hl : c.toLower = c := dif_neg fun h => hu (decide_eq_true h)
    rw [← hl, h, Bool.or_true]

/-- Blanks are neither letters nor digits. -/
theorem not_isAlpha_not_isDigit_of_isBlank (h : isBlank c) :
    c.isAlpha = false ∧ c.isDigit = false := by
  simp only [isBlank, Bool.or_eq_true, Bool.and_eq_true, decide_eq_true_eq, beq_iff_eq] at h
  have hd : c.isDigit ↔ 48 ≤ c.toNat ∧ c.toNat ≤ 57 := Char.isDigit_iff_toNat
  rw [Bool.eq_false_iff, Bool.eq_false_iff, ne_eq, ne_eq, isAlpha_iff, hd]
  omega

/-- No letter is a digit. -/
theorem isDigit_of_isAlpha (h : c.isAlpha) : c.isDigit = false := by
  have hd : c.isDigit ↔ 48 ≤ c.toNat ∧ c.toNat ≤ 57 := Char.isDigit_iff_toNat
  rw [isAlpha_iff] at h
  rw [Bool.eq_false_iff, ne_eq, hd]
  omega

end Characters

/-! ### Numerals -/

section Numerals

variable {word : List Char} {n k : Nat}

/-- A numeral of a byte: digits, at least one, with a plus sign in front or not, whose value is at
most 255. -/
def IsByte (word : List Char) : Prop :=
  ∃ digits, (word = digits ∨ word = '+' :: digits) ∧ digits ≠ [] ∧ (∀ c ∈ digits, c.isDigit) ∧
    Nat.ofDigitChars 10 digits 0 ≤ 255

/-- The digits with values below ten are the decimal ones. -/
theorem isDigit_of_digitValue? {c : Char} {d : Nat} (h : (digitValue? c).filter (· < 10) = some d) :
    c.isDigit ∧ d = c.toNat - '0'.toNat := by
  obtain ⟨hv, hd⟩ := Option.filter_eq_some_iff.1 h
  have hd : d < 10 := of_decide_eq_true hd
  unfold digitValue? at hv
  split at hv
  · next h₀ =>
    exact ⟨Bool.and_eq_true_iff.2 ⟨decide_eq_true h₀.1, decide_eq_true h₀.2⟩,
      (Option.some.inj hv).symm⟩
  · split at hv
    · next h₁ =>
      have small : 97 ≤ c.toNat := UInt32.le_iff_toNat_le.1 h₁.1
      have := Option.some.inj hv
      omega
    · split at hv
      · next h₂ =>
        have capital : 65 ≤ c.toNat := UInt32.le_iff_toNat_le.1 h₂.1
        have := Option.some.inj hv
        omega
      · cases hv

/-- What is read as digits are digits, and the value is theirs. -/
theorem digits_of_readDigits {limit : Nat} {cs : List Char} (h : readDigits 10 limit n cs = .ok k) :
    (∀ c ∈ cs, c.isDigit) ∧ k = Nat.ofDigitChars 10 cs n := by
  induction cs generalizing n with
  | nil => exact ⟨by simp, (Except.ok.inj h).symm⟩
  | cons c cs ih =>
    unfold readDigits at h
    cases hd : (digitValue? c).filter (· < 10) with
    | none =>
      rw [hd] at h
      cases h
    | some d =>
      rw [hd] at h
      dsimp only at h
      split at h
      · cases h
      · obtain ⟨hc, rfl⟩ := isDigit_of_digitValue? hd
        obtain ⟨hcs, hk⟩ := ih h
        rw [Nat.ofDigitChars_cons, Nat.mul_comm]
        exact ⟨List.forall_mem_cons.2 ⟨hc, hcs⟩, hk⟩

/-- What is read as the numeral of a byte is one. -/
theorem isByte_of_readNumeral (h : readNumeral 10 255 word = .ok n) : IsByte word := by
  have key {digits : List Char} (h : readDigits 10 255 0 digits = .ok n) :
      (∀ c ∈ digits, c.isDigit) ∧ Nat.ofDigitChars 10 digits 0 ≤ 255 := by
    obtain ⟨hd, hn⟩ := digits_of_readDigits h
    exact ⟨hd, hn ▸ le_of_readDigits (Nat.zero_le _) h⟩
  unfold readNumeral at h
  split at h
  · cases h
  · cases h
  · next digits hne => exact ⟨digits, .inr rfl, fun he => hne (he ▸ rfl), key h⟩
  · next hne _ _ => exact ⟨word, .inl rfl, fun he => hne he, key h⟩

/-- A numeral may be longer than the number, but no number is above the limit. -/
example : readNumeral 10 255 "+0012".toList = .ok 12 ∧
    readNumeral 10 255 "256".toList = .error .tooLarge := ⟨rfl, rfl⟩

end Numerals

end Text
end Famicom
