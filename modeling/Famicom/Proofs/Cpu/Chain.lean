/-
# Numbers of several bytes

A program adds or subtracts long numbers byte by byte.  Before each byte it brings the byte of the
first number into the accumulator, then comes the instruction, which finds the byte of the second
number in its operand, and the carry goes through the status from one instruction to the next.
What else the program does in between, and where the bytes come from, does not matter: a chain is a
list of turns of the processor, each with its bus, of which only the carry flags are tied together
(`Cpu.Chained`).

A turn gives what `Famicom.Cpu.Arithmetic` says for one byte, so a chain gives what is rippled
through all of them (`Cpu.Chained.outcomes`).
-/

import Famicom.Proofs.Cpu.Footprint
import Famicom.Proofs.Cpu.Ripple

namespace Famicom
namespace Cpu

open Arithmetic (Outcome ripple carryOut carryOut_eq_getLast)
open Bus (Access Recorded)

variable {β : Type} [Bus β] {c : Cpu} {bus : β} {o : Operation} {mode : AddressingMode}
  {act : Bool → Registers → UInt8 → Registers} {y z : UInt8}

-- unfolding a turn is not to carry its instruction out
attribute [local irreducible] step

/-- The processor stands before an instruction that does `o`, and `y` is its operand: the
instruction finds the place as its mode says, and reads it last. -/
def Faces (c : Cpu) (bus : β) (o : Operation) (y : UInt8) : Prop :=
  ∃ mode fetched pointed address,
    decode (Bus.read bus c.registers.pc).1 = some ⟨o, mode⟩ ∧
    mode.Finds (c.registers.pc + 1) c.registers.x c.registers.y fetched pointed (.memory address) ∧
    c.accesses bus = .read c.registers.pc (Bus.read bus c.registers.pc).1 ::
      (fetched ++ pointed ++ [.read address y])

/-- A load reads its operand, and the registers change by it. -/
theorem Operation.execute_load (ho : o.effect = .load act) (decimalMode : Bool) (operand : Operand)
    (r : Registers) (bus : β) :
    o.execute decimalMode operand r bus =
      (0, act decimalMode r (operand.load r bus).1, (operand.load r bus).2) := by
  simp only [Operation.execute, ho]

/-- **Every load from memory faces an operand**, and the registers change by that. -/
theorem exists_faces (h : decode (Bus.read bus c.registers.pc).1 = some ⟨o, mode⟩)
    (ho : o.effect = .load act) (hi : mode ≠ .implied) (ha : mode ≠ .accumulator) :
    ∃ y n bus', c.Faces bus o y ∧ c.step bus = (.ok n,
      { c with
        registers := act c.decimalMode
          { c.registers with pc := c.registers.pc + 1 + mode.operandBytes } y
        total := c.total + n }, bus') := by
  -- the same instruction on a bus with a record
  let r : Recorded β := (Bus.read ({ bus } : Recorded β) c.registers.pc).2
  let located := mode.locate (c.registers.pc + 1) c.registers.x c.registers.y r
  obtain ⟨fetched, pointed, hfound, hf⟩ :=
    locate_finds mode (c.registers.pc + 1) c.registers.x c.registers.y r
  obtain ⟨address, hm⟩ := hf.operand_memory hi ha
  obtain ⟨n, hs⟩ := c.step_of_decode (show Bus.read ({ bus } : Recorded β) _ = (_, r) from rfl) h
  have he : c.executed r ⟨o, mode⟩ = (0, act c.decimalMode
      { c.registers with pc := c.registers.pc + 1 + mode.operandBytes }
        (Bus.read located.2 address).1,
      (Bus.read located.2 address).2) := by
    simp only [executed, Operation.execute_load ho, hm, Operand.load, located]
  rw [he] at hs
  obtain ⟨e, d, b, bus', hr, hb, -⟩ :=
    step_alike Recorded.simulation (rfl : ({ bus } : Recorded β).Records bus) c
  rw [hs] at hr
  cases hr
  refine ⟨_, n, bus', ⟨mode, fetched, pointed, address, h, hm ▸ hf, ?_⟩, hb⟩
  rw [accesses, hs]
  show (Access.read address (Bus.read located.2 address).1 :: located.2.accesses).reverse = _
  rw [hfound]
  simp [r, Bus.read]

/-- The operand is read last. -/
theorem Faces.getLast? (h : c.Faces bus o y) :
    ∃ address, (c.accesses bus).getLast? = some (.read address y) := by
  obtain ⟨_, _, _, address, -, -, h⟩ := h
  exact ⟨address, by rw [h, ← List.cons_append, List.getLast?_concat]⟩

/-- An instruction has one operand. -/
theorem Faces.unique (h : c.Faces bus o y) (k : c.Faces bus o z) : y = z := by
  obtain ⟨a, h⟩ := h.getLast?
  obtain ⟨b, k⟩ := k.getLast?
  rw [h, Option.some.injEq, Access.read.injEq] at k
  exact k.2

/-- **What a load does with the operand that it faces.** -/
theorem Faces.step (h : c.Faces bus o y) (ho : o.effect = .load act) :
    ∃ n pc bus', c.step bus = (.ok n,
      { c with registers := act c.decimalMode { c.registers with pc } y, total := c.total + n },
      bus') := by
  obtain ⟨mode, fetched, pointed, address, hd, hf, -⟩ := id h
  have hi : mode ≠ .implied := by
    rintro rfl
    cases hf
  have ha : mode ≠ .accumulator := by
    rintro rfl
    cases hf
  obtain ⟨z, n, bus', hz, hs⟩ := exists_faces hd ho hi ha
  rw [h.unique hz]
  exact ⟨n, _, bus', hs⟩

/-- What a load reads last is its operand. -/
theorem faces_of_getLast? (mode : AddressingMode) (address : UInt16)
    (h : decode (Bus.read bus c.registers.pc).1 = some ⟨o, mode⟩) (ho : o.effect = .load act)
    (hi : mode ≠ .implied) (ha : mode ≠ .accumulator)
    (hl : (c.accesses bus).getLast? = some (.read address y)) : c.Faces bus o y := by
  obtain ⟨z, n, bus', hz, -⟩ := exists_faces h ho hi ha
  obtain ⟨a, k⟩ := hz.getLast?
  rw [hl, Option.some.injEq, Access.read.injEq] at k
  rw [k.2]
  exact hz

/-- What an addition or a subtraction has left in the registers. -/
def Registers.outcome (r : Registers) : Outcome where
  value := r.a
  carry := r.status.carry
  overflow := r.status.overflow
  negative := r.status.negative
  zero := r.status.zero

/-- The processor before an instruction, and its bus. -/
structure Turn (β : Type) where
  cpu : Cpu
  bus : β

namespace Turn

/-- The carry that goes in. -/
def carry (t : Turn β) : Bool := t.cpu.registers.status.carry

/-- The byte that the accumulator holds. -/
def accumulator (t : Turn β) : UInt8 := t.cpu.registers.a

/-- The registers after the instruction. -/
def after (t : Turn β) : Registers := (t.cpu.step t.bus).2.1.registers

/-- The instruction does not stop the processor. -/
def Succeeds (t : Turn β) : Prop := ∃ n, (t.cpu.step t.bus).1 = .ok n

/-- What an `ADC` gives. -/
theorem outcome_adc {t : Turn β} (h : t.cpu.Faces t.bus .adc y) :
    t.after.outcome =
      if t.cpu.decimalMode && t.cpu.registers.status.decimal then
        Arithmetic.addDecimal t.accumulator y t.carry
      else Arithmetic.add t.accumulator y t.carry := by
  obtain ⟨n, pc, bus', hs⟩ := h.step rfl
  rw [after, hs]
  rfl

/-- What an `SBC` gives. -/
theorem outcome_sbc {t : Turn β} (h : t.cpu.Faces t.bus .sbc y) :
    t.after.outcome =
      if t.cpu.decimalMode && t.cpu.registers.status.decimal then
        Arithmetic.subtractDecimal t.accumulator y t.carry
      else Arithmetic.subtract t.accumulator y t.carry := by
  obtain ⟨n, pc, bus', hs⟩ := h.step rfl
  rw [after, hs]
  rfl

end Turn

/-- **A chain of turns.**  The bytes `xs` go through the operation `o` with the bytes `ys`: in each
turn the accumulator holds the one and the operand is the other, and the carry is what the turn
before has left. -/
inductive Chained (o : Operation) : Bool → List UInt8 → List UInt8 → List (Turn β) → Prop
  | nil (carry : Bool) : Chained o carry [] [] []
  | cons {t : Turn β} {carry : Bool} {x y : UInt8} {xs ys : List UInt8} {turns : List (Turn β)}
      (carried : t.carry = carry) (holds : t.accumulator = x) (faces : t.cpu.Faces t.bus o y)
      (rest : Chained o t.after.status.carry xs ys turns) :
      Chained o carry (x :: xs) (y :: ys) (t :: turns)

namespace Chained

variable {carry : Bool} {xs ys : List UInt8} {turns : List (Turn β)}

/-- There is a byte on the left for each instruction, -/
theorem length_xs (h : Chained o carry xs ys turns) : xs.length = turns.length := by
  induction h with
  | nil => rfl
  | cons _ _ _ _ ih => rw [List.length_cons, ih, List.length_cons]

/-- and one on the right. -/
theorem length_ys (h : Chained o carry xs ys turns) : ys.length = turns.length := by
  induction h with
  | nil => rfl
  | cons _ _ _ _ ih => rw [List.length_cons, ih, List.length_cons]

/-- No instruction of a chain fails. -/
theorem succeeds (h : Chained o carry xs ys turns) (ho : o.effect = .load act) :
    ∀ t ∈ turns, t.Succeeds := by
  induction h with
  | nil => exact nofun
  | cons _ _ faces _ ih =>
    obtain ⟨n, pc, bus', hs⟩ := faces.step ho
    exact List.forall_mem_cons.2 ⟨⟨n, by rw [hs]⟩, ih⟩

/-- **A chain ripples.**  If each turn gives what `f` says, the chain gives what `f` says of all
bytes. -/
theorem outcomes {f : UInt8 → UInt8 → Bool → Outcome} (h : Chained o carry xs ys turns)
    (hf : ∀ t ∈ turns, ∀ y, t.cpu.Faces t.bus o y → t.after.outcome = f t.accumulator y t.carry) :
    turns.map (·.after.outcome) = ripple f carry xs ys := by
  induction h with
  | nil => rfl
  | @cons t carry x y xs ys turns carried holds faces rest ih =>
    subst carried holds
    rw [List.forall_mem_cons] at hf
    have first := hf.1 y faces
    rw [List.map_cons, ih hf.2, ripple, ← first]
    rfl

end Chained

/-- The bytes that the turns have given. -/
theorem values_of_outcomes {turns : List (Turn β)} {outs : List Outcome}
    (h : turns.map (·.after.outcome) = outs) : turns.map (·.after.a) = outs.map (·.value) := by
  rw [← h, List.map_map]
  rfl

/-- What the last turn has given. -/
theorem last_of_outcomes {turns : List (Turn β)} {outs : List Outcome}
    (h : turns.map (·.after.outcome) = outs) (hn : turns ≠ []) :
    ∃ ho : outs ≠ [], (turns.getLast hn).after.outcome = outs.getLast ho := by
  subst h
  exact ⟨List.map_eq_nil_iff.not.2 hn, by rw [List.getLast_map]⟩

/-- The carry that the last turn has left. -/
theorem carry_of_outcomes {turns : List (Turn β)} {outs : List Outcome} {carry : Bool}
    (h : turns.map (·.after.outcome) = outs) (hn : turns ≠ []) :
    (turns.getLast hn).after.status.carry = carryOut carry outs := by
  obtain ⟨ho, last⟩ := last_of_outcomes h hn
  rw [carryOut_eq_getLast carry ho, ← last]
  rfl

end Cpu
end Famicom
