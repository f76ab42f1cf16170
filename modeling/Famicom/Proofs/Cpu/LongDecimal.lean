/-
# Long decimal arithmetic

With decimal arithmetic a byte holds two digits, so a number of `n` bytes has `2 n` digits, and its
value is that of its bytes in base 100 (`Arithmetic.decimal`).  One addition adds the digits one
after the other and adjusts each that is above nine by six, so that the carry out of it leaves the
hexadecimal digit as well (`Arithmetic.addDecimal_spec`).  A subtraction takes its carry from the
subtraction of the bytes as binary numbers; that is right because two pairs of digits are in the
same order as the bytes that hold them (`Arithmetic.subtractDecimal_spec`).

What holds of a byte holds of chains of instructions, on a processor that obeys its D flag, if the
flag is set (`Cpu.chains_compute_decimals`).
-/

import Famicom.Proofs.Cpu.Chain

namespace Famicom
namespace Cpu
namespace Arithmetic

/-- Both digits of a byte are decimal. -/
def Packed (b : UInt8) : Prop := b.toNat / 16 ≤ 9 ∧ b.toNat % 16 ≤ 9
deriving Decidable

/-- The number that the two digits of a byte make. -/
def twoDigits (b : UInt8) : Nat := 10 * (b.toNat / 16) + b.toNat % 16

/-- The number that the digits of bytes make, the least first. -/
def decimal (bytes : List UInt8) : Nat := Nat.ofDigits 100 (bytes.map twoDigits)

theorem toNat_digits (upper lower : Nat) :
    (digits upper lower).toNat = 16 * (upper % 16) + lower % 16 := by
  rw [digits, UInt8.toNat_ofNat']
  omega

/-- Two bytes make four digits, the last two of them in front. -/
example : decimal [0x58, 0x99] = 9958 := by decide

/-- A byte whose digits are decimal. -/
theorem packed_digits {upper lower : Nat} (hu : upper % 16 ≤ 9) (hl : lower % 16 ≤ 9) :
    Packed (digits upper lower) ∧
      twoDigits (digits upper lower) = 10 * (upper % 16) + lower % 16 := by
  rw [Packed, twoDigits, toNat_digits]
  omega

/-- **A digit that is adjusted** carries if it was above nine, and what is left is a digit. -/
theorem adjust_spec {s : Nat} (h : s ≤ 19) :
    (if 9 < s then s + 6 else s) % 16 ≤ 9 ∧
      (if 9 < s then s + 6 else s) % 16 +
        10 * (if 15 < (if 9 < s then s + 6 else s) then 1 else 0) = s := by
  split <;> split <;> omega

/-- **A digit that borrows** is what was lacking, and a digit again. -/
theorem borrow_spec {s : Int} (h : -10 ≤ s) (h' : s ≤ 9) :
    ((if s < 0 then s - 6 else s) % 16).toNat % 16 ≤ 9 ∧
      (((if s < 0 then s - 6 else s) % 16).toNat % 16 : Int) =
        s + 10 * (if s < 0 then 1 else 0) := by
  split <;> omega

theorem toNat_decide (p : Prop) [Decidable p] : (decide p).toNat = if p then 1 else 0 := by
  by_cases h : p <;> simp [h]

/-! ### Two digits at a time

With packed digits on both sides the adjusted sum is packed again, and its carry is that of the
sum of the two numbers below a hundred. -/

/-- **Decimal addition of a byte** adds its digits. -/
theorem addDecimal_spec {x y : UInt8} (hx : Packed x) (hy : Packed y) (carry : Bool) :
    Packed (addDecimal x y carry).value ∧
      twoDigits (addDecimal x y carry).value + 100 * (addDecimal x y carry).carry.toNat =
        twoDigits x + twoDigits y + carry.toNat := by
  have hc := Bool.toNat_le carry
  obtain ⟨hx₁, hx₀⟩ := hx
  obtain ⟨hy₁, hy₀⟩ := hy
  -- the lower digits, then the upper ones with what those carry
  obtain ⟨lower, carried⟩ := adjust_spec (s := x.toNat % 16 + y.toNat % 16 + carry.toNat) (by omega)
  simp only [addDecimal]
  generalize (if 9 < x.toNat % 16 + y.toNat % 16 + carry.toNat then _ else _) = l at lower carried ⊢
  generalize he : (if 15 < l then 1 else 0) = k at carried ⊢
  have hk : k ≤ 1 := by
    rw [← he]
    split <;> decide
  obtain ⟨upper, carried'⟩ := adjust_spec (s := x.toNat / 16 + y.toNat / 16 + k) (by omega)
  generalize (if 9 < x.toNat / 16 + y.toNat / 16 + k then _ else _) = u at upper carried' ⊢
  obtain ⟨packed, value⟩ := packed_digits upper lower
  refine ⟨packed, ?_⟩
  rw [value, toNat_decide, twoDigits, twoDigits]
  omega

/-- A subtraction borrows nothing if it can do without. -/
theorem subtract_carry (x y : UInt8) (carry : Bool) :
    (subtract x y carry).carry = true ↔ y.toNat + 1 ≤ x.toNat + carry.toNat := by
  have hy := y.toNat_lt
  have hs : UInt8.size = 256 := rfl
  simp only [subtract, add, decide_eq_true_eq, UInt8.toNat_not]
  omega

/-- **Decimal subtraction of a byte** adds what its digits lack to 99. -/
theorem subtractDecimal_spec {x y : UInt8} (hx : Packed x) (hy : Packed y) (carry : Bool) :
    Packed (subtractDecimal x y carry).value ∧
      twoDigits (subtractDecimal x y carry).value + 100 * (subtractDecimal x y carry).carry.toNat =
        twoDigits x + (99 - twoDigits y) + carry.toNat := by
  have hc := Bool.toNat_le carry
  have hb : (if carry then 0 else 1 : Int) = 1 - carry.toNat := by cases carry <;> rfl
  have hk :
      (subtract x y carry).carry.toNat = if y.toNat + 1 ≤ x.toNat + carry.toNat then 1 else 0 := by
    rw [← toNat_decide,
      Bool.eq_iff_iff.2 ((subtract_carry x y carry).trans decide_eq_true_iff.symm)]
  obtain ⟨hx₁, hx₀⟩ := hx
  obtain ⟨hy₁, hy₀⟩ := hy
  simp only [subtractDecimal, hb, hk]
  -- the lower digits, then the upper ones without what those borrow
  generalize hl : ((x.toNat % 16 : Nat) - (y.toNat % 16 : Nat) - (1 - carry.toNat) : Int) = l
  obtain ⟨lower, borrowed⟩ := borrow_spec (s := l) (by omega) (by omega)
  generalize hd : (if l < 0 then ((x.toNat / 16 : Nat) - (y.toNat / 16 : Nat) - 1 : Int)
    else (x.toNat / 16 : Nat) - (y.toNat / 16 : Nat)) = u
  have hu : u = (x.toNat / 16 : Nat) - (y.toNat / 16 : Nat) - (if l < 0 then 1 else 0) := by
    rw [← hd]
    split <;> omega
  obtain ⟨upper, borrowed'⟩ :=
    borrow_spec (s := u) (by split at hu <;> omega) (by split at hu <;> omega)
  generalize ((if l < 0 then l - 6 else l) % 16).toNat = low at lower borrowed ⊢
  generalize ((if u < 0 then u - 6 else u) % 16).toNat = up at upper borrowed' ⊢
  obtain ⟨packed, value⟩ := packed_digits upper lower
  refine ⟨packed, ?_⟩
  rw [value, twoDigits, twoDigits]
  -- two pairs of digits are in the same order as the bytes
  have order : u < 0 ↔ ¬ y.toNat + 1 ≤ x.toNat + carry.toNat := by
    split at hu <;> omega
  simp only [order] at borrowed'
  split at borrowed' <;> split at borrowed <;> split <;> omega

/-! ### Longer numbers -/

variable {xs ys : List UInt8}

/-- **What is right for two digits is right for many.** -/
theorem decimal_ripple {f : UInt8 → UInt8 → Bool → Outcome} {w : UInt8 → Nat}
    (hf : ∀ x y carry, Packed x → Packed y → Packed (f x y carry).value ∧
      twoDigits (f x y carry).value + 100 * (f x y carry).carry.toNat =
        twoDigits x + w y + carry.toNat)
    (carry : Bool) (hl : xs.length = ys.length) (hx : ∀ x ∈ xs, Packed x)
    (hy : ∀ y ∈ ys, Packed y) : (∀ r ∈ (ripple f carry xs ys).map (·.value), Packed r) ∧
      decimal ((ripple f carry xs ys).map (·.value)) +
          100 ^ xs.length * (carryOut carry (ripple f carry xs ys)).toNat =
        decimal xs + Nat.ofDigits 100 (ys.map w) + carry.toNat := by
  constructor
  · intro r hr
    obtain ⟨out, ho, rfl⟩ := List.mem_map.1 hr
    obtain ⟨x, hx', y, hy', c, rfl⟩ := exists_of_mem_ripple ho
    exact (hf x y c (hx x hx') (hy y hy')).1
  · have h := ofDigits_ripple (fun x y c hx hy => (hf x y c hx hy).2) carry hl hx hy
    rw [decimal, List.map_map]
    exact h

/-- What is lacking to the greatest number. -/
theorem decimal_complement (hy : ∀ y ∈ ys, Packed y) :
    decimal ys + Nat.ofDigits 100 (ys.map fun y => 99 - twoDigits y) + 1 = 100 ^ ys.length := by
  refine ofDigits_complement fun y h => ?_
  obtain ⟨upper, lower⟩ := hy y h
  rw [twoDigits]
  omega

end Arithmetic

open Arithmetic (Packed twoDigits decimal ripple)

variable {β : Type} [Bus β]

-- unfolding a turn is not to carry its instruction out
attribute [local irreducible] step

namespace Turn

/-- The processor obeys its D flag, and the flag is set. -/
def Decimal (t : Turn β) : Prop :=
  t.cpu.decimalMode = true ∧ t.cpu.registers.status.decimal = true
deriving Decidable

variable {t : Turn β} {y : UInt8}

/-- What an `ADC` gives with decimal arithmetic. -/
theorem Decimal.outcome_adc (ht : t.Decimal) (h : t.cpu.Faces t.bus .adc y) :
    t.after.outcome = Arithmetic.addDecimal t.accumulator y t.carry := by
  rw [Turn.outcome_adc h, ht.1, ht.2]
  rfl

/-- What an `SBC` gives with decimal arithmetic. -/
theorem Decimal.outcome_sbc (ht : t.Decimal) (h : t.cpu.Faces t.bus .sbc y) :
    t.after.outcome = Arithmetic.subtractDecimal t.accumulator y t.carry := by
  rw [Turn.outcome_sbc h, ht.1, ht.2]
  rfl

end Turn

/-- What turns give through which a ripple of digits goes. -/
theorem digits_of_outcomes {f : UInt8 → UInt8 → Bool → Arithmetic.Outcome} {w : UInt8 → Nat}
    (hf : ∀ x y carry, Packed x → Packed y → Packed (f x y carry).value ∧
      twoDigits (f x y carry).value + 100 * (f x y carry).carry.toNat =
        twoDigits x + w y + carry.toNat)
    {carry : Bool} {xs ys : List UInt8} {turns : List (Turn β)} (hn : turns ≠ [])
    (hx : xs.length = turns.length) (hy : ys.length = turns.length)
    (px : ∀ x ∈ xs, Packed x) (py : ∀ y ∈ ys, Packed y)
    (e : turns.map (·.after.outcome) = ripple f carry xs ys) :
    let rs := turns.map (·.after.a)
    (∀ r ∈ rs, Packed r) ∧
      decimal rs + 100 ^ turns.length * (turns.getLast hn).after.status.carry.toNat =
        decimal xs + Nat.ofDigits 100 (ys.map w) + carry.toNat := by
  rw [values_of_outcomes e, carry_of_outcomes e hn, ← hx]
  exact Arithmetic.decimal_ripple hf carry (hx.trans hy.symm) px py

/-- **Chains compute with decimal numbers.**  On a processor that obeys its D flag, and with the
flag set, let `n` bytes of two numbers, each byte two decimal digits, go through `ADC`, or through
`SBC`, with the carry flowing through the status.  No turn stops the processor, the bytes that
result are decimal digits again, and with the carry that is left they are the sum or the difference
of the numbers, the carry in counted. -/
theorem chains_compute_decimals {carry : Bool} {xs ys : List UInt8} {turns : List (Turn β)}
    (hn : turns ≠ []) (obeys : ∀ t ∈ turns, t.Decimal)
    (hx : ∀ x ∈ xs, Packed x) (hy : ∀ y ∈ ys, Packed y) :
    let n := turns.length
    let rs := turns.map (·.after.a)
    let s := (turns.getLast hn).after.status
    (Chained .adc carry xs ys turns →
      (∀ t ∈ turns, t.Succeeds) ∧ (∀ r ∈ rs, Packed r) ∧
      decimal rs + s.carry.toNat * 100 ^ n = decimal xs + decimal ys + carry.toNat) ∧
    (Chained .sbc carry xs ys turns →
      (∀ t ∈ turns, t.Succeeds) ∧ (∀ r ∈ rs, Packed r) ∧
      (decimal rs : Int) - (1 - s.carry.toNat) * 100 ^ n =
        decimal xs - decimal ys - (1 - carry.toNat)) := by
  intro n rs s
  constructor
  · intro h
    obtain ⟨packed, value⟩ :=
      digits_of_outcomes (fun _ _ c hx hy => Arithmetic.addDecimal_spec hx hy c)
      hn h.length_xs h.length_ys hx hy (h.outcomes fun t ht y hy => (obeys t ht).outcome_adc hy)
    refine ⟨h.succeeds rfl, packed, ?_⟩
    rw [Nat.mul_comm]
    exact value
  · intro h
    obtain ⟨packed, value⟩ :=
      digits_of_outcomes (fun _ _ c hx hy => Arithmetic.subtractDecimal_spec hx hy c)
      hn h.length_xs h.length_ys hx hy (h.outcomes fun t ht y hy => (obeys t ht).outcome_sbc hy)
    -- the digits' complement, as in the binary case
    have complement := Arithmetic.decimal_complement hy
    rw [h.length_ys] at complement
    refine ⟨h.succeeds rfl, packed, ?_⟩
    zify at value complement
    linear_combination value + complement

/-- With the programs of two bytes `9958` and `46` and a carry are added, and `46` is taken from
`12`. -/
theorem chains_compute_decimals_two_bytes :
    let bus : Bus.Cells :=
      ⟨[0x65, 0x08, 0xA5, 0x07, 0x71, 0x09, 0x58, 0x99, 0x46, 0x0B, 0x00, 0x00]⟩
    let bus' : Bus.Cells :=
      ⟨[0xE5, 0x08, 0xA5, 0x07, 0xF1, 0x09, 0x12, 0x00, 0x46, 0x0B, 0x00, 0x00]⟩
    let status : Status := { decimal := true, carry := true }
    let t : Turn Bus.Cells := ⟨{ registers := { a := 0x58, status }, decimalMode := true }, bus⟩
    let u : Turn Bus.Cells := ⟨((t.cpu.step bus).2.1.step bus).2.1, bus⟩
    let t' : Turn Bus.Cells := ⟨{ registers := { a := 0x12, status }, decimalMode := true }, bus'⟩
    let u' : Turn Bus.Cells := ⟨((t'.cpu.step bus').2.1.step bus').2.1, bus'⟩
    Chained .adc true [0x58, 0x99] [0x46, 0x00] [t, u] ∧
      decimal [t.after.a, u.after.a] + u.after.status.carry.toNat * 100 ^ 2 = 9958 + 46 + 1 ∧
      [t.after.a, u.after.a] = [0x05, 0x00] ∧
    Chained .sbc true [0x12, 0x00] [0x46, 0x00] [t', u'] ∧
      (decimal [t'.after.a, u'.after.a] : Int) - (1 - u'.after.status.carry.toNat) * 100 ^ 2 =
        12 - 46 ∧
      [t'.after.a, u'.after.a] = [0x66, 0x99] := by
  intro bus bus' status t u t' u'
  -- the first byte is in the zero page, the second one behind a pointer
  have h : Chained .adc true [0x58, 0x99] [0x46, 0x00] [t, u] := by
    refine .cons rfl rfl (faces_of_getLast? .zeroPage 0x08 ?_ rfl ?_ ?_ ?_) <|
      .cons ?_ ?_ (faces_of_getLast? .indirectY 0x0B ?_ rfl ?_ ?_ ?_) (.nil _)
    all_goals decide +kernel
  have h' : Chained .sbc true [0x12, 0x00] [0x46, 0x00] [t', u'] := by
    refine .cons rfl rfl (faces_of_getLast? .zeroPage 0x08 ?_ rfl ?_ ?_ ?_) <|
      .cons ?_ ?_ (faces_of_getLast? .indirectY 0x0B ?_ rfl ?_ ?_ ?_) (.nil _)
    all_goals decide +kernel
  have hs :=
    (chains_compute_decimals (List.cons_ne_nil t [u]) (by decide +kernel) (by decide +kernel)
      (by decide +kernel)).1 h
  have hd :=
    (chains_compute_decimals (List.cons_ne_nil t' [u']) (by decide +kernel) (by decide +kernel)
      (by decide +kernel)).2 h'
  exact ⟨h, hs.2.2, by decide +kernel, h', hd.2.2, by decide +kernel⟩

end Cpu
end Famicom
