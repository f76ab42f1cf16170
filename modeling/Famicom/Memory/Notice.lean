/-
# What is reported of a write

A write to an address where nothing is wired is a warning; switching a bank and setting the
sequencer are reported for those who look for faults.
-/

import Famicom.Memory.Basic

namespace Famicom
namespace Memory

/-- What is reported of a write, if anything. -/
def notice? (m : Memory) (address : UInt16) (v : UInt8) : Option Notice :=
  if address < 0x4018 then Apu.notice? address v
  else if address < 0x4020 then
    some ⟨.warn, "write $" ++ Hex.byte v ++ " to unused $" ++ Hex.word address⟩
  else m.board.notice? address v

/-- An address space with the notices of the writes to it, the last one in front. -/
structure Reporting where
  memory : Memory
  notices : List Notice := []

instance : Bus Reporting where
  read r address :=
    let (v, memory) := r.memory.read address
    (v, { r with memory })
  write r address v :=
    { memory := r.memory.write address v
      notices := (r.memory.notice? address v).toList ++ r.notices }
  irqLine r := r.memory.apu.irqLine

end Memory
end Famicom
