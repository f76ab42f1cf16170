/-
# The processor

The processor is six registers and a countdown.  An instruction is carried out whole in its
first cycle; `remaining` counts the cycles for which the processor then waits, and `total` all
cycles ever charged to it, those it still waits for included.
-/

import Famicom.Cpu.Status
import Famicom.Hex

namespace Famicom

namespace Cpu

/-- The registers of the processor.  The initial values are those after a reset, before the
program counter is loaded. -/
structure Registers where
  a : UInt8 := 0
  x : UInt8 := 0
  y : UInt8 := 0
  sp : UInt8 := 0xFD
  pc : UInt16 := 0
  status : Status := {}
deriving DecidableEq, Repr

/-- Why the processor stops. -/
inductive Fault where
  /-- The byte at the program counter is no instruction. -/
  | invalidOpcode (opcode : UInt8) (pc : UInt16)
deriving DecidableEq, Repr

/-- The fault in words. -/
def Fault.message : Fault → String
  | invalidOpcode opcode pc => "invalid opcode $" ++ Hex.byte opcode ++ " at $" ++ Hex.word pc

end Cpu

/-- The processor. -/
structure Cpu where
  registers : Cpu.Registers := {}
  /-- The cycles to wait before the next instruction.  The count has no upper bound here; in a run
  in which the host does not write it is never more than 600 (`Famicom.Proofs.Console.Debt`). -/
  remaining : Nat := 0
  /-- The cycles charged so far. -/
  total : Nat := 0
  /-- Whether additions and subtractions obey the D flag. -/
  decimalMode : Bool := false
deriving DecidableEq, Repr

namespace Cpu

/-- The cycles that a reset and the entry into an interrupt take. -/
def entryCycles : Nat := 7

/-- Where the address of the handler of an NMI is kept. -/
def nmiVector : UInt16 := 0xFFFA

/-- Where the address of the first instruction is kept. -/
def resetVector : UInt16 := 0xFFFC

/-- Where the address of the handler of an IRQ or a `BRK` is kept. -/
def irqVector : UInt16 := 0xFFFE

/-- Charge `n` cycles to the processor. -/
@[inline] def stall (c : Cpu) (n : Nat) : Cpu :=
  { c with remaining := c.remaining + n, total := c.total + n }

end Cpu
end Famicom
