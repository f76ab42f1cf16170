/-
# Running the processor

Two speeds.  `step` carries out one instruction and says what it cost.  `tick` lets one cycle
pass: while `remaining` is not zero the processor waits, and when it is zero it enters a requested
interrupt or carries out the next instruction, whose cost becomes the new `remaining`.

An opcode that stands for nothing stops the processor.  Nothing but the bus has changed then, and
the bus only by the read of that opcode; so a result is an answer or a fault, and beside it,
always, the processor and the bus.
-/

import Famicom.Cpu.Execution

namespace Famicom
namespace Cpu

variable {β : Type} [Bus β]

/-- Carry out one instruction.  The answer is the number of cycles charged for it. -/
@[specialize] def step (c : Cpu) (bus : β) : Except Fault Nat × Cpu × β :=
  let pc := c.registers.pc
  let (opcode, bus) := Bus.read bus pc
  match decode opcode with
  | none => (.error (.invalidOpcode opcode pc), c, bus)
  | some i =>
    let (located, bus) := i.mode.locate (pc + 1) c.registers.x c.registers.y bus
    let registers := { c.registers with pc := pc + 1 + i.mode.operandBytes }
    let (extra, registers, bus) :=
      i.operation.execute c.decimalMode located.operand registers bus
    let cycles := i.cycles + (located.leftPage && i.paysForPage).toNat + extra
    (.ok cycles, { c with registers, total := c.total + cycles }, bus)

/-- **What an instruction does**: it fails and leaves the processor as it was, or it is charged
to the processor, and every instruction takes time. -/
theorem step_cases (c : Cpu) (bus : β) :
    (∃ fault, c.step bus = (.error fault, c, (c.step bus).2.2)) ∨
    ∃ n r, 2 ≤ n ∧ c.step bus =
      (.ok n, { c with registers := r, total := c.total + n }, (c.step bus).2.2) := by
  unfold step
  dsimp only
  cases decode (Bus.read bus c.registers.pc).1 with
  | none => exact .inl ⟨_, rfl⟩
  | some i =>
    have h := i.two_le_cycles
    exact .inr ⟨_, _, by omega, rfl⟩

/-- Enter an interrupt that came from outside. -/
@[specialize] def interrupt (c : Cpu) (bus : β) (vector : UInt16) : Cpu × β :=
  let (registers, bus) := enter c.registers bus vector false
  ({ c with registers }.stall entryCycles, bus)

/-- Enter the interrupt that cannot be masked. -/
@[specialize] def nmi (c : Cpu) (bus : β) : Cpu × β := c.interrupt bus nmiVector

/-- Enter the maskable interrupt, unless it is masked.  The answer says whether it was
entered. -/
@[specialize] def irq (c : Cpu) (bus : β) : Bool × Cpu × β :=
  if c.registers.status.interrupt then (false, c, bus)
  else (true, c.interrupt bus irqVector)

/-- Put the processor into its initial state and load the program counter. -/
@[specialize] def reset (c : Cpu) (bus : β) : Cpu × β :=
  let (pc, bus) := Bus.readWord bus resetVector
  ({ c with registers := { pc }, remaining := entryCycles, total := entryCycles }, bus)

/-- Whether the next cycle enters an interrupt. -/
@[inline] def takesIrq (c : Cpu) (bus : β) : Bool :=
  Bus.irqLine bus && !c.registers.status.interrupt

/-- One cycle passes. -/
@[specialize] def tick (c : Cpu) (bus : β) : Except Fault Unit × Cpu × β :=
  if c.remaining ≠ 0 then (.ok (), { c with remaining := c.remaining - 1 }, bus)
  else if c.takesIrq bus then
    let (_, c, bus) := c.irq bus
    (.ok (), { c with remaining := c.remaining - 1 }, bus)
  else
    match c.step bus with
    | (.ok cycles, c, bus) => (.ok (), { c with remaining := c.remaining + cycles - 1 }, bus)
    | (.error fault, c, bus) => (.error fault, c, bus)

end Cpu
end Famicom
