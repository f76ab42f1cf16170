/-
# A carry that runs through many bytes

An addition or a subtraction of long numbers goes byte by byte, the least first, and what one byte
carries goes into the next (`Arithmetic.ripple`).  If a single byte adds up in some base, whatever
the value of a byte is there, then so does the whole (`Arithmetic.ofDigits_ripple`): by induction
on the bytes, the carry between two of them being what the induction is generalised over.

Subtraction has this form too.  To subtract a digit is to add what it lacks to the greatest digit,
with the carry saying that nothing was borrowed, so the second number may be read through another
digit than the first.
-/

import Famicom.Cpu.Arithmetic
import Mathlib.Data.Nat.Digits.Defs
import Mathlib.Tactic.LinearCombination

namespace Famicom
namespace Cpu
namespace Arithmetic

/-- What the bytes of two numbers give, one after the other, the carry of each going into the
next. -/
def ripple (f : UInt8 → UInt8 → Bool → Outcome) : Bool → List UInt8 → List UInt8 → List Outcome
  | carry, x :: xs, y :: ys => f x y carry :: ripple f (f x y carry).carry xs ys
  | _, _, _ => []

/-- The carry that is left. -/
def carryOut (carry : Bool) : List Outcome → Bool
  | [] => carry
  | out :: outs => carryOut out.carry outs

variable {f : UInt8 → UInt8 → Bool → Outcome} {xs ys : List UInt8}

theorem ripple_ne_nil (carry : Bool) (hx : xs ≠ []) (hy : ys ≠ []) : ripple f carry xs ys ≠ [] := by
  obtain ⟨x, xs, rfl⟩ := List.exists_cons_of_ne_nil hx
  obtain ⟨y, ys, rfl⟩ := List.exists_cons_of_ne_nil hy
  exact List.cons_ne_nil _ _

/-- What comes out of a ripple comes from a byte of either number. -/
theorem exists_of_mem_ripple {carry : Bool} {out : Outcome} (h : out ∈ ripple f carry xs ys) :
    ∃ x ∈ xs, ∃ y ∈ ys, ∃ c, out = f x y c := by
  induction xs generalizing ys carry with
  | nil => cases h
  | cons x xs ih =>
    cases ys with
    | nil => cases h
    | cons y ys =>
      obtain rfl | h := List.mem_cons.1 h
      · exact ⟨x, List.mem_cons_self .., y, List.mem_cons_self .., carry, rfl⟩
      · obtain ⟨x', hx, y', hy, c, e⟩ := ih h
        exact ⟨x', List.mem_cons_of_mem _ hx, y', List.mem_cons_of_mem _ hy, c, e⟩

/-- The carry that is left is that of the last byte. -/
theorem carryOut_eq_getLast (carry : Bool) {outs : List Outcome} (h : outs ≠ []) :
    carryOut carry outs = (outs.getLast h).carry := by
  induction outs generalizing carry with
  | nil => exact absurd rfl h
  | cons out outs ih =>
    cases outs with
    | nil => rfl
    | cons next outs => exact ih out.carry (List.cons_ne_nil _ _)

/-- A carry that goes through both bytes and out of the last. -/
example : (ripple add true [0xFF, 0xFF] [0x00, 0x00]).map Outcome.value = [0, 0] ∧
    carryOut true (ripple add true [0xFF, 0xFF] [0x00, 0x00]) = true := by decide

/-- **What adds up byte by byte adds up.**  Of the bytes that are `ok` the first number's count `u`
and the second's count `w` in the given base. -/
theorem ofDigits_ripple {base : Nat} {u w : UInt8 → Nat} {ok : UInt8 → Prop}
    (hf : ∀ x y carry, ok x → ok y →
      u (f x y carry).value + base * (f x y carry).carry.toNat = u x + w y + carry.toNat)
    (carry : Bool) (hl : xs.length = ys.length) (hx : ∀ x ∈ xs, ok x) (hy : ∀ y ∈ ys, ok y) :
    Nat.ofDigits base ((ripple f carry xs ys).map fun out => u out.value) +
        base ^ xs.length * (carryOut carry (ripple f carry xs ys)).toNat =
      Nat.ofDigits base (xs.map u) + Nat.ofDigits base (ys.map w) + carry.toNat := by
  induction xs generalizing ys carry with
  | nil =>
    obtain rfl := List.length_eq_zero_iff.1 hl.symm
    simp [ripple, carryOut]
  | cons x xs ih =>
    cases ys with
    | nil => cases hl
    | cons y ys =>
      rw [List.forall_mem_cons] at hx hy
      have first := hf x y carry hx.1 hy.1
      have rest := ih (f x y carry).carry (Nat.succ.inj hl) hx.2 hy.2
      simp only [ripple, carryOut, List.map_cons, Nat.ofDigits_cons, List.length_cons, Nat.pow_succ]
      linear_combination first + base * rest

/-- **Digits that make up the greatest one** make up the greatest number. -/
theorem ofDigits_complement {base : Nat} {u w : UInt8 → Nat} (h : ∀ y ∈ ys, u y + w y + 1 = base) :
    Nat.ofDigits base (ys.map u) + Nat.ofDigits base (ys.map w) + 1 = base ^ ys.length := by
  induction ys with
  | nil => simp
  | cons y ys ih =>
    rw [List.forall_mem_cons] at h
    simp only [List.map_cons, Nat.ofDigits_cons, List.length_cons, Nat.pow_succ]
    linear_combination h.1 + base * ih h.2

end Arithmetic
end Cpu
end Famicom
