/-
# Long binary arithmetic

Bytes stand for a number, the least first (`Arithmetic.littleEndian`), or, if the highest bit of
the last byte is the sign, for one in two's complement (`Arithmetic.signed`).  A carry that ripples
through additions of single bytes adds the numbers, and the flags of the last byte are those of the
whole: its carry is the carry, its overflow says that the signed sum does not fit, and its sign is
the sign (`Arithmetic.littleEndian_ripple_add`, `Arithmetic.overflow_ripple_add`,
`Arithmetic.negative_ripple_add`).  Each is an induction from the last byte down, because a byte in
front moves a signed number up by eight places and adds what is not negative.

Subtraction is addition of the complement, byte by byte and on the whole.  So a chain of
instructions of a processor without decimal arithmetic computes with integers
(`Cpu.chains_compute_integers`), whatever its D flag.
-/

import Famicom.Proofs.Bits
import Famicom.Proofs.Cpu.Chain

namespace Famicom
namespace Cpu
namespace Arithmetic

/-- The number that bytes stand for, the least first. -/
def littleEndian (bytes : List UInt8) : Nat := Nat.ofDigits 256 (bytes.map UInt8.toNat)

/-- The number that bytes stand for in two's complement. -/
def signed (bytes : List UInt8) : Int := Int.bmod (littleEndian bytes) (256 ^ bytes.length)

/-- A number has a place among those of `n` bytes in two's complement. -/
def Fits (n : Nat) (s : Int) : Prop := -256 ^ n ≤ 2 * s ∧ 2 * s < 256 ^ n

/-- The first byte counts as it is and each that follows 256 times as much. -/
@[simp] theorem littleEndian_cons (b : UInt8) (bytes : List UInt8) :
    littleEndian (b :: bytes) = b.toNat + 256 * littleEndian bytes := by
  simp [littleEndian, Nat.ofDigits_cons]

/-- The bytes of a number bound it. -/
theorem littleEndian_lt (bytes : List UInt8) : littleEndian bytes < 256 ^ bytes.length := by
  have hd : ∀ d ∈ bytes.map UInt8.toNat, d < 256 := by
    rintro d hd
    obtain ⟨b, -, rfl⟩ := List.mem_map.1 hd
    exact b.toNat_lt
  have h := Nat.ofDigits_lt_base_pow_length (by decide) hd
  rwa [List.length_map] at h

/-- A number in the upper half of its range stands for a negative one. -/
theorem signed_eq (bytes : List UInt8) :
    signed bytes = if 2 * littleEndian bytes < 256 ^ bytes.length then (littleEndian bytes : Int)
      else littleEndian bytes - 256 ^ bytes.length := by
  have h := littleEndian_lt bytes
  have hp : ((256 ^ bytes.length : Nat) : Int) = 256 ^ bytes.length := by push_cast; rfl
  rw [signed, Int.bmod_def, Int.emod_eq_of_lt (Int.natCast_nonneg _) (by exact_mod_cast h)]
  split <;> split <;> omega

/-- A byte in front moves a signed number up and adds to it. -/
theorem signed_cons (b : UInt8) {bytes : List UInt8} (h : bytes ≠ []) :
    signed (b :: bytes) = b.toNat + 256 * signed bytes := by
  obtain ⟨n, hn⟩ := Nat.exists_eq_succ_of_ne_zero (List.length_eq_zero_iff.not.2 h)
  have hb := b.toNat_lt
  have hp : ((256 ^ n : Nat) : Int) = 256 ^ n := by push_cast; rfl
  rw [signed_eq, signed_eq, littleEndian_cons, List.length_cons, hn]
  simp only [Nat.pow_succ, Int.pow_succ]
  split <;> split <;> omega

/-- A number of one byte. -/
theorem signed_singleton (b : UInt8) :
    signed [b] = if 128 ≤ b.toNat then (b.toNat : Int) - 256 else b.toNat := by
  rw [signed_eq, littleEndian_cons]
  simp only [littleEndian, List.map_nil, Nat.ofDigits_nil, List.length_singleton]
  split <;> split <;> omega

/-- The same bytes without a sign and with one. -/
example : littleEndian [0xFE, 0xFF] = 65534 ∧ signed [0xFE, 0xFF] = -2 := by decide

/-! ### Sums

A carry that ripples from byte to byte is the sum of the numbers.  Overflow is the last byte's
alone, so it is the overflow of the whole sum in two's complement. -/

/-- What fits is not changed by what is put in front. -/
theorem fits_succ {n b : Nat} (hn : n ≠ 0) (hb : b < 256) (s : Int) :
    Fits (n + 1) (b + 256 * s) ↔ Fits n s := by
  obtain ⟨n, rfl⟩ := Nat.exists_eq_succ_of_ne_zero hn
  simp only [Fits, Int.pow_succ]
  omega

variable {xs ys : List UInt8} (carry : Bool)

/-- **Long addition**: nothing is lost but what is carried out. -/
theorem littleEndian_ripple_add (hl : xs.length = ys.length) :
    littleEndian ((ripple add carry xs ys).map (·.value)) +
        256 ^ xs.length * (carryOut carry (ripple add carry xs ys)).toNat =
      littleEndian xs + littleEndian ys + carry.toNat := by
  have h := ofDigits_ripple (fun x y c _ _ => toNat_add x y c) carry hl (fun _ _ => trivial)
    (fun _ _ => trivial)
  rw [littleEndian, List.map_map]
  exact h

/-- Signs clash if the first two are alike and the third is another. -/
theorem signsClash_iff (a b r : UInt8) :
    signsClash a b r = true ↔
      (128 ≤ a.toNat ↔ 128 ≤ b.toNat) ∧ ¬ (128 ≤ a.toNat ↔ 128 ≤ r.toNat) := by
  rw [signsClash, and_highest_ne_zero]
  simp only [UInt8.toBitVec_and, UInt8.toBitVec_not, UInt8.toBitVec_xor, BitVec.msb_and,
    BitVec.msb_not, BitVec.msb_xor, ← msb_iff]
  cases a.toBitVec.msb <;> cases b.toBitVec.msb <;> cases r.toBitVec.msb <;> decide

/-- The overflow of one byte. -/
theorem overflow_add (x y : UInt8) :
    (add x y carry).overflow = true ↔ ¬ Fits 1 (signed [x] + signed [y] + carry.toNat) := by
  have h := toNat_add x y carry
  have hx := x.toNat_lt
  have hy := y.toNat_lt
  have hr := (add x y carry).value.toNat_lt
  have hc := Bool.toNat_le carry
  have hc' := Bool.toNat_le (add x y carry).carry
  show signsClash x y (add x y carry).value = true ↔ _
  rw [signsClash_iff, Fits, signed_singleton, signed_singleton]
  split <;> split <;> omega

/-- **The overflow of a long addition**: the flag of the last byte says that the signed sum does
not fit. -/
theorem overflow_ripple_add (hl : xs.length = ys.length) (h : ripple add carry xs ys ≠ []) :
    ((ripple add carry xs ys).getLast h).overflow = true ↔
      ¬ Fits xs.length (signed xs + signed ys + carry.toNat) := by
  induction xs generalizing ys carry with
  | nil => exact absurd rfl h
  | cons x xs ih =>
    cases ys with
    | nil => cases hl
    | cons y ys =>
      have hl := Nat.succ.inj hl
      by_cases hx : xs = []
      · subst hx
        obtain rfl := List.length_eq_zero_iff.1 hl.symm
        exact overflow_add carry x y
      · have hy : ys ≠ [] := by
          rintro rfl
          exact hx (List.length_eq_zero_iff.1 hl)
        have hr := ripple_ne_nil (f := add) (add x y carry).carry hx hy
        -- the sum of the higher bytes, moved up, and the byte that the lowest ones give
        have hs : signed (x :: xs) + signed (y :: ys) + carry.toNat = (add x y carry).value.toNat +
            256 * (signed xs + signed ys + (add x y carry).carry.toNat) := by
          rw [signed_cons x hx, signed_cons y hy]
          have := toNat_add x y carry
          omega
        rw [hs, List.length_cons, fits_succ (List.length_eq_zero_iff.not.2 hx)
          (add x y carry).value.toNat_lt, ← ih (add x y carry).carry hl hr]
        simp only [ripple, List.getLast_cons hr]

/-- **The sign of a long addition** is that of the last byte. -/
theorem negative_ripple_add (h : ripple add carry xs ys ≠ []) :
    ((ripple add carry xs ys).getLast h).negative = true ↔
      signed ((ripple add carry xs ys).map (·.value)) < 0 := by
  induction xs generalizing ys carry with
  | nil => exact absurd rfl h
  | cons x xs ih =>
    cases ys with
    | nil => exact absurd rfl h
    | cons y ys =>
      have hr := (add x y carry).value.toNat_lt
      by_cases he : ripple add (add x y carry).carry xs ys = []
      · have h₁ : ripple add carry (x :: xs) (y :: ys) = [add x y carry] := by rw [ripple, he]
        simp only [h₁, List.getLast_singleton, List.map_cons, List.map_nil]
        show ((add x y carry).value &&& 0x80 != 0) = true ↔ _
        rw [and_highest_ne_zero, msb_iff, signed_singleton]
        split <;> omega
      · have := ih (add x y carry).carry he
        simp only [ripple, List.getLast_cons he, List.map_cons]
        rw [this, signed_cons _ (List.map_eq_nil_iff.not.2 he)]
        omega

/-! ### Differences

A difference is a sum with the complement, a carry taking the place of the missing borrow. -/

/-- Long subtraction is long addition of the complement. -/
theorem ripple_subtract (xs ys : List UInt8) :
    ripple subtract carry xs ys = ripple add carry xs (ys.map (~~~ ·)) := by
  induction xs generalizing ys carry with
  | nil => rfl
  | cons x xs ih =>
    cases ys with
    | nil => rfl
    | cons y ys => rw [List.map_cons, ripple, ripple, ih]; rfl

/-- A number and its complement make all ones together. -/
theorem littleEndian_complement (ys : List UInt8) :
    littleEndian ys + littleEndian (ys.map (~~~ ·)) + 1 = 256 ^ ys.length := by
  have hy : ∀ y ∈ ys, y.toNat + (~~~ y).toNat + 1 = 256 := by
    intro y _
    have := y.toNat_lt
    have hs : UInt8.size = 256 := rfl
    rw [UInt8.toNat_not]
    omega
  have h := ofDigits_complement hy
  rw [littleEndian, littleEndian, List.map_map]
  exact h

/-- So the complement is the negative number less one. -/
theorem signed_complement (h : ys ≠ []) : signed (ys.map (~~~ ·)) = -signed ys - 1 := by
  obtain ⟨n, hn⟩ := Nat.exists_eq_succ_of_ne_zero (List.length_eq_zero_iff.not.2 h)
  have hc := littleEndian_complement ys
  have hp : ((256 ^ n : Nat) : Int) = 256 ^ n := by push_cast; rfl
  rw [signed_eq, signed_eq, List.length_map]
  simp only [hn, Nat.pow_succ, Int.pow_succ] at hc ⊢
  split <;> split <;> omega

end Arithmetic

open Arithmetic (littleEndian signed Fits ripple)

variable {β : Type} [Bus β]

-- unfolding a turn is not to carry its instruction out
attribute [local irreducible] step

/-- What turns give through which a ripple of additions goes. -/
theorem sum_of_outcomes {carry : Bool} {xs zs : List UInt8} {turns : List (Turn β)}
    (hn : turns ≠ []) (hx : xs.length = turns.length) (hz : zs.length = turns.length)
    (e : turns.map (·.after.outcome) = ripple Arithmetic.add carry xs zs) :
    let rs := turns.map (·.after.a)
    let s := (turns.getLast hn).after.status
    littleEndian rs + 256 ^ turns.length * s.carry.toNat =
      littleEndian xs + littleEndian zs + carry.toNat ∧
    (s.overflow = true ↔ ¬ Fits turns.length (signed xs + signed zs + carry.toNat)) ∧
    (s.negative = true ↔ signed rs < 0) := by
  intro rs s
  obtain ⟨ho, last⟩ := last_of_outcomes e hn
  have hl := hx.trans hz.symm
  have hr : rs = (ripple Arithmetic.add carry xs zs).map (·.value) := values_of_outcomes e
  have hc : s.carry = Arithmetic.carryOut carry (ripple Arithmetic.add carry xs zs) :=
    carry_of_outcomes e hn
  have hv : s.overflow = ((ripple Arithmetic.add carry xs zs).getLast ho).overflow :=
    congrArg Arithmetic.Outcome.overflow last
  have hs : s.negative = ((ripple Arithmetic.add carry xs zs).getLast ho).negative :=
    congrArg Arithmetic.Outcome.negative last
  rw [hr, hc, hv, hs, ← hx]
  exact ⟨Arithmetic.littleEndian_ripple_add carry hl, Arithmetic.overflow_ripple_add carry hl ho,
    Arithmetic.negative_ripple_add carry ho⟩

/-- **Chains compute with integers.**  On a processor without decimal arithmetic let `n` bytes of
two numbers go through `ADC`, or through `SBC`, in any of its modes, with the carry flowing through
the status.  No turn stops the processor; the bytes that result, with the carry that is left, are
the sum or the difference of the numbers, the carry in counted; and the status of the last turn
says whether the signed result does not fit into `n` bytes, and whether it is negative. -/
theorem chains_compute_integers {carry : Bool} {xs ys : List UInt8} {turns : List (Turn β)}
    (hn : turns ≠ []) (plain : ∀ t ∈ turns, t.cpu.decimalMode = false) :
    let n := turns.length
    let rs := turns.map (·.after.a)
    let s := (turns.getLast hn).after.status
    (Chained .adc carry xs ys turns →
      (∀ t ∈ turns, t.Succeeds) ∧
      littleEndian rs + s.carry.toNat * 256 ^ n =
        littleEndian xs + littleEndian ys + carry.toNat ∧
      (s.overflow = true ↔ ¬ Fits n (signed xs + signed ys + carry.toNat)) ∧
      (s.negative = true ↔ signed rs < 0)) ∧
    (Chained .sbc carry xs ys turns →
      (∀ t ∈ turns, t.Succeeds) ∧
      (littleEndian rs : Int) - (1 - s.carry.toNat) * 256 ^ n =
        littleEndian xs - littleEndian ys - (1 - carry.toNat) ∧
      (s.overflow = true ↔ ¬ Fits n (signed xs - signed ys - (1 - carry.toNat))) ∧
      (s.negative = true ↔ signed rs < 0)) := by
  intro n rs s
  constructor
  · intro h
    have e := h.outcomes (f := Arithmetic.add) fun t ht y hy => by
      rw [t.outcome_adc hy, plain t ht]
      rfl
    obtain ⟨value, overflow, negative⟩ := sum_of_outcomes hn h.length_xs h.length_ys e
    refine ⟨h.succeeds rfl, ?_, overflow, negative⟩
    rw [Nat.mul_comm, value]
  · intro h
    have hy : ys ≠ [] := by
      rintro rfl
      exact hn (List.length_eq_zero_iff.1 h.length_ys.symm)
    have e := h.outcomes (f := Arithmetic.subtract) fun t ht y hy => by
      rw [t.outcome_sbc hy, plain t ht]
      rfl
    -- a subtraction is the addition of the complements, so both halves rest on one law of sums
    rw [Arithmetic.ripple_subtract] at e
    obtain ⟨value, overflow, negative⟩ :=
      sum_of_outcomes hn h.length_xs ((List.length_map _).trans h.length_ys) e
    have complement := Arithmetic.littleEndian_complement ys
    rw [h.length_ys] at complement
    rw [Arithmetic.signed_complement hy] at overflow
    refine ⟨h.succeeds rfl, ?_, ?_, negative⟩
    · zify at value complement
      linear_combination value + complement
    · have hs : signed xs + (-signed ys - 1) + carry.toNat =
          signed xs - signed ys - (1 - carry.toNat) := by
        ring
      rw [overflow, hs]

/-- A program that goes on with `LDA $07`, after `ADC $08` and before `ADC ($09),Y`, adds `$0020`
and a carry to `$7FF0`; with `SBC` it takes `$0020` from `$8010`.  The signed results do not
fit. -/
theorem chains_compute_integers_two_bytes :
    let bus : Bus.Cells :=
      ⟨[0x65, 0x08, 0xA5, 0x07, 0x71, 0x09, 0xF0, 0x7F, 0x20, 0x0B, 0x00, 0x00]⟩
    let bus' : Bus.Cells :=
      ⟨[0xE5, 0x08, 0xA5, 0x07, 0xF1, 0x09, 0x10, 0x80, 0x20, 0x0B, 0x00, 0x00]⟩
    let t : Turn Bus.Cells := ⟨{ registers := { a := 0xF0, status := { carry := true } } }, bus⟩
    let u : Turn Bus.Cells := ⟨((t.cpu.step bus).2.1.step bus).2.1, bus⟩
    let t' : Turn Bus.Cells := ⟨{ registers := { a := 0x10, status := { carry := true } } }, bus'⟩
    let u' : Turn Bus.Cells := ⟨((t'.cpu.step bus').2.1.step bus').2.1, bus'⟩
    Chained .adc true [0xF0, 0x7F] [0x20, 0x00] [t, u] ∧
      littleEndian [t.after.a, u.after.a] + u.after.status.carry.toNat * 256 ^ 2 =
        littleEndian [0xF0, 0x7F] + littleEndian [0x20, 0x00] + 1 ∧
      u.after.status.overflow = true ∧
    Chained .sbc true [0x10, 0x80] [0x20, 0x00] [t', u'] ∧
      (littleEndian [t'.after.a, u'.after.a] : Int) - (1 - u'.after.status.carry.toNat) * 256 ^ 2 =
        littleEndian [0x10, 0x80] - littleEndian [0x20, 0x00] - (1 - 1) ∧
      u'.after.status.overflow = true := by
  intro bus bus' t u t' u'
  -- the first byte is in the zero page, the second one behind a pointer
  have h : Chained .adc true [0xF0, 0x7F] [0x20, 0x00] [t, u] := by
    refine .cons rfl rfl (faces_of_getLast? .zeroPage 0x08 ?_ rfl ?_ ?_ ?_) <|
      .cons ?_ ?_ (faces_of_getLast? .indirectY 0x0B ?_ rfl ?_ ?_ ?_) (.nil _)
    all_goals decide +kernel
  have h' : Chained .sbc true [0x10, 0x80] [0x20, 0x00] [t', u'] := by
    refine .cons rfl rfl (faces_of_getLast? .zeroPage 0x08 ?_ rfl ?_ ?_ ?_) <|
      .cons ?_ ?_ (faces_of_getLast? .indirectY 0x0B ?_ rfl ?_ ?_ ?_) (.nil _)
    all_goals decide +kernel
  have hs := (chains_compute_integers (List.cons_ne_nil t [u]) (by decide +kernel)).1 h
  have hd := (chains_compute_integers (List.cons_ne_nil t' [u']) (by decide +kernel)).2 h'
  exact ⟨h, hs.2.1, by decide +kernel, h', hd.2.1, by decide +kernel⟩

end Cpu
end Famicom
