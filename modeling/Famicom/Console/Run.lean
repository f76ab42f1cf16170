/-
# Running the console

Two ways to run for more than a cycle: until a frame is finished, and until one more instruction
is.  Both are loops that wait for a part of the machine, so both carry a bound: as many cycles as
two frames have for the first, and for the second twice the cycles that the processor owes and a
generous allowance.  The bounds are never met by a machine that was built here; a run that meets
one says so.
-/

import Famicom.Console.Basic

namespace Famicom
namespace Console

/-- What a run leaves: the console, the number of cycles that have passed, one in which the
processor stopped included, and why it ended early if it did. -/
structure Run where
  console : Console
  cycles : Nat := 0
  fault? : Option Fault := none

/-- Run cycles as long as the console is to go on, but at most `bound` of them. -/
@[specialize] def cycleWhile (goesOn : Console → Bool) : Nat → Nat → Console → Run
  | 0, n, c =>
    let fault? := if goesOn c then some .outOfCycles else none
    { console := c, cycles := n, fault? }
  | bound + 1, n, c =>
    if goesOn c then
      match c.cycle with
      | (.ok (), c) => cycleWhile goesOn bound (n + 1) c
      | (.error f, c) => { console := c, cycles := n + 1, fault? := some (.cpu f) }
    else { console := c, cycles := n }

/-- Run one cycle after a run that did not end early. -/
@[inline] def Run.cycle (r : Run) : Run :=
  match r with
  | ⟨c, n, none⟩ =>
    match c.cycle with
    | (.ok (), c) => { console := c, cycles := n + 1 }
    | (.error f, c) => { console := c, cycles := n + 1, fault? := some (.cpu f) }
  | r => r

/-- Go on after a run that did not end early. -/
@[specialize] def Run.andWhile (r : Run) (goesOn : Console → Bool) (bound : Nat) : Run :=
  match r with
  | ⟨c, n, none⟩ => cycleWhile goesOn bound n c
  | r => r

/-- More cycles than a frame has. -/
def frameBound : Nat := 59562

/-- Whether no frame is ready. -/
@[inline] def awaitsFrame (c : Console) : Bool := !c.memory.ppu.frameReady

/-- Take note of a finished frame. -/
def finishFrame (c : Console) : Console :=
  { c with memory := c.memory.clearFrameReady, frames := c.frames + 1 }

/-- Run until a frame is finished. -/
def runFrame (c : Console) : Run :=
  match Run.andWhile (Run.cycle { console := c }) awaitsFrame frameBound with
  | ⟨c, n, none⟩ => { console := c.finishFrame, cycles := n }
  | r => r

/-- Run until `n` frames are finished, `cycles` cycles having passed before. -/
def runFramesFrom (c : Console) (cycles : Nat) : Nat → Run
  | 0 => { console := c, cycles }
  | n + 1 =>
    match c.runFrame with
    | ⟨c, k, none⟩ => runFramesFrom c (cycles + k) n
    | ⟨c, k, fault⟩ => ⟨c, cycles + k, fault⟩

/-- Run until `n` frames are finished. -/
def runFrames (c : Console) (n : Nat) : Run := c.runFramesFrom 0 n

/-- More cycles than the processor can be waiting for. -/
def instructionBound (c : Console) : Nat :=
  2 * (c.cpu.remaining + c.memory.pendingStall) + 4096

/-- Whether the processor is waiting. -/
@[inline] def cpuWaits (c : Console) : Bool := c.cpu.remaining != 0

/-- Run until one more instruction is finished. -/
def stepInstruction (c : Console) : Run :=
  let bound := c.instructionBound
  ((cycleWhile cpuWaits bound 0 c).cycle).andWhile cpuWaits bound

end Console
end Famicom
