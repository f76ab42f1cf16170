/-
# Numerals

A numeral is an optional plus sign and then digits, at least one.  It is read from left to right
and the first thing that is wrong with it counts: a character that is no digit, or a digit that
lifts the value above the limit.
-/

namespace Famicom
namespace Text

/-- What is wrong with a numeral. -/
inductive NumeralFault where
  | empty
  | invalidDigit
  | tooLarge
deriving DecidableEq, Repr

/-- The fault in words. -/
def NumeralFault.message : NumeralFault → String
  | empty => "cannot parse integer from empty string"
  | invalidDigit => "invalid digit found in string"
  | tooLarge => "number too large to fit in target type"

/-- The value of a digit, of ten decimal ones and the letters, capital or not. -/
def digitValue? (c : Char) : Option Nat :=
  if '0' ≤ c ∧ c ≤ '9' then some (c.toNat - 48)
  else if 'a' ≤ c ∧ c ≤ 'z' then some (c.toNat - 87)
  else if 'A' ≤ c ∧ c ≤ 'Z' then some (c.toNat - 55)
  else none

/-- Read digits behind a value of `n`. -/
def readDigits (base limit : Nat) : Nat → List Char → Except NumeralFault Nat
  | n, [] => .ok n
  | n, c :: cs =>
    match (digitValue? c).filter (· < base) with
    | none => .error .invalidDigit
    | some d =>
      if limit < n * base + d then .error .tooLarge
      else readDigits base limit (n * base + d) cs

/-- Read a numeral. -/
def readNumeral (base limit : Nat) : List Char → Except NumeralFault Nat
  | [] => .error .empty
  | ['+'] => .error .invalidDigit
  | '+' :: cs => readDigits base limit 0 cs
  | cs => readDigits base limit 0 cs

/-- No number that is read is above the limit. -/
theorem le_of_readDigits {base limit n k : Nat} {cs : List Char} (hn : n ≤ limit)
    (h : readDigits base limit n cs = .ok k) : k ≤ limit := by
  induction cs generalizing n with
  | nil => simp only [readDigits, Except.ok.injEq] at h; omega
  | cons c cs ih =>
    unfold readDigits at h
    split at h
    · simp at h
    · split at h
      · simp at h
      · exact ih (by omega) h

example : readNumeral 16 255 ['+', 'f', 'F'] = .ok 255 := by rfl
example : readNumeral 16 255 ['1', '0', '0'] = .error .tooLarge := by rfl

end Text
end Famicom
