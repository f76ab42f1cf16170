/-
# What is reported of an instruction

Before an instruction is carried out it is reported with the registers as they are: address,
opcode, operation and mode, and the cycles charged so far.
-/

import Famicom.Cpu.Step
import Famicom.Notice

namespace Famicom
namespace Cpu

/-- What is reported of the instruction at the program counter, if there is one. -/
def traceNotice? {β : Type} [Bus β] (c : Cpu) (bus : β) : Option Notice :=
  let r := c.registers
  let opcode := (Bus.read bus r.pc).1
  (decode opcode).map fun i =>
    { level := .trace
      text := Hex.word r.pc ++ "  " ++ Hex.byte opcode ++ "  " ++ i.operation.mnemonic ++ " " ++
        i.mode.name ++ "  A:" ++ Hex.byte r.a ++ " X:" ++ Hex.byte r.x ++ " Y:" ++
        Hex.byte r.y ++ " P:" ++ Hex.byte r.status.toByte ++ " SP:" ++ Hex.byte r.sp ++
        " CYC:" ++ c.total.repr }

end Cpu
end Famicom
