/-
# Addition and subtraction

The processor adds and subtracts bytes with a carry.  In binary both are one addition:
subtracting is adding the complement, and the carry says that nothing was borrowed.

With decimal arithmetic a byte holds two digits.  The digits are added one after the other, and
a digit above nine is carried by adding six.  Of the flags only the carry is decimal then: Z is
that of the binary sum, N and V are taken before the upper digit is adjusted.  Decimal
subtraction has the flags of the binary one.
-/

namespace Famicom
namespace Cpu
namespace Arithmetic

/-- What an addition or a subtraction gives. -/
structure Outcome where
  value : UInt8
  carry : Bool
  overflow : Bool
  negative : Bool
  zero : Bool
deriving DecidableEq, Repr

/-- Whether the signs of `a` and `b` agree and that of `r` is another. -/
@[inline] def signsClash (a b r : UInt8) : Bool := ~~~(a ^^^ b) &&& (a ^^^ r) &&& 0x80 != 0

/-- Binary addition with carry. -/
def add (a b : UInt8) (carry : Bool) : Outcome :=
  let sum := a.toNat + b.toNat + carry.toNat
  let value := UInt8.ofNat sum
  { value
    carry := 0xFF < sum
    overflow := signsClash a b value
    negative := value &&& 0x80 != 0
    zero := value == 0 }

/-- Binary subtraction with borrow: `carry` means that there is none. -/
def subtract (a b : UInt8) (carry : Bool) : Outcome := add a (~~~b) carry

/-- The byte with a given upper and lower digit; of each only the lowest four bits count. -/
def digits (upper lower : Nat) : UInt8 := UInt8.ofNat (upper % 16 * 16 + lower % 16)

/-- Decimal addition with carry. -/
def addDecimal (a b : UInt8) (carry : Bool) : Outcome :=
  let lower := a.toNat % 16 + b.toNat % 16 + carry.toNat
  let lower := if 9 < lower then lower + 6 else lower
  let upper := a.toNat / 16 + b.toNat / 16 + if 15 < lower then 1 else 0
  let unadjusted := digits upper lower
  let adjusted := if 9 < upper then upper + 6 else upper
  { value := digits adjusted lower
    carry := 15 < adjusted
    overflow := signsClash a b unadjusted
    negative := unadjusted &&& 0x80 != 0
    zero := (add a b carry).zero }

/-- Decimal subtraction with borrow. -/
def subtractDecimal (a b : UInt8) (carry : Bool) : Outcome :=
  let borrow : Int := if carry then 0 else 1
  let lower : Int := (a.toNat % 16 : Nat) - (b.toNat % 16 : Nat) - borrow
  let upper : Int := (a.toNat / 16 : Nat) - (b.toNat / 16 : Nat)
  let upper := if lower < 0 then upper - 1 else upper
  let lower := if lower < 0 then lower - 6 else lower
  let upper := if upper < 0 then upper - 6 else upper
  { subtract a b carry with value := digits (upper % 16).toNat (lower % 16).toNat }

/-- **Binary addition is addition.**  With the carry as the ninth bit nothing is lost. -/
theorem toNat_add (a b : UInt8) (carry : Bool) :
    (add a b carry).value.toNat + 256 * (add a b carry).carry.toNat
      = a.toNat + b.toNat + carry.toNat := by
  have ha := a.toNat_lt
  have hb := b.toNat_lt
  have hc : carry.toNat ≤ 1 := by cases carry <;> decide
  simp only [add, UInt8.toNat_ofNat']
  by_cases h : 0xFF < a.toNat + b.toNat + carry.toNat
  · simp only [h, decide_true, Bool.toNat_true]; omega
  · simp only [h, decide_false, Bool.toNat_false]; omega

/-- Two positive numbers can overflow into a negative one, and a digit above nine is carried. -/
example : add 0x7F 0x01 false = ⟨0x80, false, true, true, false⟩ ∧
    (addDecimal 0x58 0x46 true).value = 0x05 ∧ (addDecimal 0x58 0x46 true).carry = true := by
  decide

end Arithmetic
end Cpu
end Famicom
