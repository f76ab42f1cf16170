/-
# Carrying out an operation

How each kind of operation meets the bus.  A load reads its operand once; a store writes it once;
a shift or a count reads it once and writes it once.  The stack lies in page one and grows
downwards: a push writes and then moves the pointer, a pull moves it and then reads.  A branch
that is not taken leaves its operand unread.

`Operation.execute` gives, besides the registers and the bus, the cycles beyond those of
`Instruction.cycles`, which only a branch that is taken has.
-/

import Famicom.Cpu.Operand

namespace Famicom
namespace Cpu

variable {β : Type} [Bus β]

/-- The cell that the stack pointer points at. -/
def stackCell (sp : UInt8) : UInt16 := 0x0100 ||| sp.toUInt16

/-- Push a byte. -/
@[specialize] def push (r : Registers) (bus : β) (v : UInt8) : Registers × β :=
  ({ r with sp := r.sp - 1 }, Bus.write bus (stackCell r.sp) v)

/-- Push a word, the high byte first. -/
@[specialize] def pushWord (r : Registers) (bus : β) (w : UInt16) : Registers × β :=
  let (r, bus) := push r bus (Word.high w)
  push r bus (Word.low w)

/-- Pull a byte. -/
@[specialize] def pull (r : Registers) (bus : β) : UInt8 × Registers × β :=
  let sp := r.sp + 1
  let (v, bus) := Bus.read bus (stackCell sp)
  (v, { r with sp }, bus)

/-- Pull a word, the low byte first. -/
@[specialize] def pullWord (r : Registers) (bus : β) : UInt16 × Registers × β :=
  let (low, r, bus) := pull r bus
  let (high, r, bus) := pull r bus
  (Word.ofBytes low high, r, bus)

/-- Enter an interrupt handler: push the program counter and the status, mask interrupts, and go
to the address kept at `vector`. -/
@[specialize] def enter (r : Registers) (bus : β) (vector : UInt16) (brk : Bool) :
    Registers × β :=
  let (r, bus) := pushWord r bus r.pc
  let (r, bus) := push r bus (r.status.toStack brk)
  let (pc, bus) := Bus.readWord bus vector
  ({ r with pc, status := { r.status with interrupt := true } }, bus)

/-- The byte in an operand. -/
@[specialize] def Operand.load (o : Operand) (r : Registers) (bus : β) : UInt8 × β :=
  match o with
  | .none => (0, bus)
  | .accumulator => (r.a, bus)
  | .memory address => Bus.read bus address

/-- Put a byte into an operand. -/
@[specialize] def Operand.store (o : Operand) (r : Registers) (bus : β) (v : UInt8) :
    Registers × β :=
  match o with
  | .none => (r, bus)
  | .accumulator => ({ r with a := v }, bus)
  | .memory address => (r, Bus.write bus address v)

/-- The address that lies a signed byte away from `pc`. -/
def branchTarget (pc : UInt16) (distance : UInt8) : UInt16 :=
  pc + if distance < 0x80 then distance.toUInt16 else 0xFF00 ||| distance.toUInt16

/-- Carry out an operation on an operand.  The program counter stands behind the instruction. -/
@[specialize] def Operation.execute (o : Operation) (decimalMode : Bool) (operand : Operand)
    (r : Registers) (bus : β) : Nat × Registers × β :=
  match o.effect with
  | .load act =>
    let (v, bus) := operand.load r bus
    (0, act decimalMode r v, bus)
  | .store value =>
    match operand with
    | .memory address => (0, r, Bus.write bus address (value r))
    | _ => (0, r, bus)
  | .modify act =>
    let (v, bus) := operand.load r bus
    let (carry, result) := act r.status.carry v
    let (r, bus) := operand.store r bus result
    (0, { r with status := { r.status.setZeroNegative result with carry } }, bus)
  | .branch taken =>
    if taken r.status then
      let (distance, bus) := operand.load r bus
      let target := branchTarget r.pc distance
      (if leavesPage r.pc target then 2 else 1, { r with pc := target }, bus)
    else (0, r, bus)
  | .internal act => (0, act r, bus)
  | .push value =>
    let (r, bus) := push r bus (value r)
    (0, r, bus)
  | .pull act =>
    let (v, r, bus) := pull r bus
    (0, act r v, bus)
  | .jump =>
    match operand with
    | .memory address => (0, { r with pc := address }, bus)
    | _ => (0, r, bus)
  | .call =>
    match operand with
    | .memory address =>
      let (r, bus) := pushWord r bus (r.pc - 1)
      (0, { r with pc := address }, bus)
    | _ => (0, r, bus)
  | .ret =>
    let (address, r, bus) := pullWord r bus
    (0, { r with pc := address + 1 }, bus)
  | .returnFromInterrupt =>
    let (status, r, bus) := pull r bus
    let (pc, r, bus) := pullWord r bus
    (0, { r with status := .ofByte status, pc }, bus)
  | .software =>
    let (r, bus) := enter { r with pc := r.pc + 1 } bus irqVector true
    (0, r, bus)

end Cpu
end Famicom
