/-
# What is reported of a run

A run is silent.  What there is to report of it is found by going through it again from the
console that it started with.
-/

import Famicom.Console.Basic
import Famicom.Cpu.Trace
import Famicom.Memory.Notice

namespace Famicom
namespace Console

/-- What is reported of a console that has been reset. -/
def resetNotice (c : Console) : Notice where
  level := .info
  text := "reset: mapper " ++ c.memory.board.number.toNat.repr ++ ", PC=$" ++
    Hex.word c.cpu.registers.pc

/-- What is reported while a cartridge is put in: it is reported once it has been read, even if
there is no board for it. -/
def loadNotices (c : Console) (image : Array UInt8) : List Notice :=
  match Cartridge.parse image with
  | .error _ => []
  | .ok cartridge =>
    match c.load image with
    | (.ok (), c) => [cartridge.loadedNotice, c.resetNotice]
    | (.error _, _) => [cartridge.loadedNotice]

/-- What is reported of the instruction that the processor starts, if it starts one. -/
def instructionNotice? (c : Console) : Option Notice :=
  if c.cpu.remaining ≠ 0 || c.cpu.takesIrq c.memory then none
  else Cpu.traceNotice? c.cpu c.memory

/-- The processor's share of a machine cycle, and what a listener at level `l` hears of it: the
instruction that starts, then the writes that it makes. -/
def hearCpu (l : Notice.Level) (c : Console) : List Notice × Console :=
  let instruction := if l = .trace then c.instructionNotice?.toList else []
  let { cpu, memory, frames, settings } := c
  let (_, cpu, reporting) := cpu.tick ({ memory } : Memory.Reporting)
  (instruction ++ reporting.notices.reverse.filter (·.heardAt l),
    { cpu, memory := reporting.memory, frames, settings })

/-- Prepend what a listener at level `l` hears of the next `n` cycles, the last in front, to
`heard`. -/
def hear (l : Notice.Level) (heard : List Notice) : Nat → Console → List Notice
  | 0, _ => heard
  | n + 1, c =>
    let (notices, c) := hearCpu l c.tickHardware
    hear l (notices.reverse ++ heard) n c

/-- What a listener at level `l` hears of the next `n` cycles, in order. -/
def notices (c : Console) (l : Notice.Level) (n : Nat) : List Notice := (hear l [] n c).reverse

end Console
end Famicom
