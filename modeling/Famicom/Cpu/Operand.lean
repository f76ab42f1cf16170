/-
# Finding the operand

An addressing mode reads the bytes behind the opcode and gives the place of the operand.  Three
sums wrap: an index added to a byte stays in page zero, the second byte of a pointer in page zero
is looked for in page zero, and the second byte of the pointer of an indirect jump in the
pointer's own page.
-/

import Famicom.Bus.Basic
import Famicom.Cpu.Instruction

namespace Famicom
namespace Cpu

/-- Where an operand is. -/
inductive Operand where
  | none
  | accumulator
  | memory (address : UInt16)
deriving DecidableEq, Repr

/-- Whether two addresses lie in different pages. -/
@[inline] def leavesPage (a b : UInt16) : Bool := a &&& 0xFF00 != b &&& 0xFF00

variable {β : Type} [Bus β]

/-- The address that follows `address` in its page. -/
def nextInPage (address : UInt16) : UInt16 := address &&& 0xFF00 ||| (address + 1) &&& 0x00FF

/-- An operand that has been found. -/
structure Located where
  operand : Operand
  /-- Whether an index led out of the page. -/
  leftPage : Bool := false
deriving DecidableEq, Repr

/-- The operand at `base`, `index` further on. -/
@[inline] def Located.indexed (base : UInt16) (index : UInt8) : Located where
  operand := .memory (base + index.toUInt16)
  leftPage := leavesPage base (base + index.toUInt16)

/-- Find the operand of the instruction whose opcode stands just before `pc`. -/
@[specialize] def AddressingMode.locate (mode : AddressingMode) (pc : UInt16) (x y : UInt8)
    (bus : β) : Located × β :=
  match mode with
  | .implied => ({ operand := .none }, bus)
  | .accumulator => ({ operand := .accumulator }, bus)
  | .immediate | .relative => ({ operand := .memory pc }, bus)
  | .zeroPage =>
    let (b, bus) := Bus.read bus pc
    ({ operand := .memory b.toUInt16 }, bus)
  | .zeroPageX =>
    let (b, bus) := Bus.read bus pc
    ({ operand := .memory (b + x).toUInt16 }, bus)
  | .zeroPageY =>
    let (b, bus) := Bus.read bus pc
    ({ operand := .memory (b + y).toUInt16 }, bus)
  | .absolute =>
    let (address, bus) := Bus.readWord bus pc
    ({ operand := .memory address }, bus)
  | .absoluteX =>
    let (base, bus) := Bus.readWord bus pc
    (.indexed base x, bus)
  | .absoluteY =>
    let (base, bus) := Bus.readWord bus pc
    (.indexed base y, bus)
  | .indirect =>
    let (pointer, bus) := Bus.readWord bus pc
    let (address, bus) := Bus.readWordAt bus pointer (nextInPage pointer)
    ({ operand := .memory address }, bus)
  | .indirectX =>
    let (b, bus) := Bus.read bus pc
    let (address, bus) := Bus.readZeroPageWord bus (b + x)
    ({ operand := .memory address }, bus)
  | .indirectY =>
    let (b, bus) := Bus.read bus pc
    let (base, bus) := Bus.readZeroPageWord bus b
    (.indexed base y, bus)

end Cpu
end Famicom
