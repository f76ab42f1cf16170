/-
# The noise channel

A shift register of 15 bits.  Each step moves it down by one; the bit that comes in at the top is
the exclusive or of bit 0 and of bit 1, or of bit 6 in the short mode.  The channel is silent
while bit 0 is set.
-/

import Famicom.Apu.Envelope
import Famicom.Apu.Length
import Famicom.Apu.Period

namespace Famicom
namespace Apu

/-- The noise channel. -/
structure Noise where
  envelope : Envelope := {}
  length : Length := {}
  shortMode : Bool := false
  period : Nat := 2
  timer : Nat := 0
  shift : Nat := 1
deriving DecidableEq, Repr

namespace Noise

/-- The control register: length halt, envelope. -/
def writeControl (n : Noise) (v : UInt8) : Noise :=
  { n with
    length := { n.length with halt := v &&& 0x20 != 0 }
    envelope := n.envelope.write v }

/-- The mode and the period. -/
def writePeriod (n : Noise) (v : UInt8) : Noise :=
  { n with shortMode := v &&& 0x80 != 0, period := Period.choose Period.noise v }

/-- The length.  The envelope starts again. -/
def writeLength (n : Noise) (v : UInt8) : Noise :=
  { n with length := n.length.load (v >>> 3), envelope := n.envelope.restart }

/-- Switch the channel on or off. -/
def setEnabled (n : Noise) (enabled : Bool) : Noise :=
  { n with length := n.length.setEnabled enabled }

/-- The shift register after a step. -/
def nextShift (shortMode : Bool) (shift : Nat) : Nat :=
  let tapped := if shortMode then shift / 64 else shift / 2
  shift / 2 + (shift + tapped) % 2 * 0x4000

/-- The shift register has 15 bits. -/
theorem nextShift_lt {shift : Nat} (h : shift < 0x8000) (shortMode : Bool) :
    nextShift shortMode shift < 0x8000 := by
  unfold nextShift
  dsimp only
  omega

/-- The shift register never runs empty: the bit that leaves a register with nothing else in it
comes in again at the top. -/
theorem nextShift_pos {shift : Nat} (h : 0 < shift) (shortMode : Bool) :
    0 < nextShift shortMode shift := by
  rcases Nat.lt_or_ge shift 2 with h1 | h2
  · obtain rfl : shift = 1 := by omega
    cases shortMode <;> decide
  · have : 0 < shift / 2 := by omega
    exact Nat.lt_of_lt_of_le this (Nat.le_add_right _ _)

/-- A cycle of the timer passes. -/
def clockTimer (n : Noise) : Noise :=
  if n.timer = 0 then
    { n with timer := n.period - 1, shift := nextShift n.shortMode n.shift }
  else { n with timer := n.timer - 1 }

/-- A quarter frame passes. -/
def clockQuarter (n : Noise) : Noise := { n with envelope := n.envelope.clock }

/-- A half frame passes. -/
def clockHalf (n : Noise) : Noise := { n with length := n.length.clock }

/-- The output, from 0 to 15. -/
def output (n : Noise) : Nat :=
  if n.shift % 2 = 1 || !n.length.active then 0 else n.envelope.volume

end Noise
end Apu
end Famicom
