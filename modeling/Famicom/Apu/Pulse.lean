/-
# The pulse channels

A square wave in eight steps.  A timer of eleven bits moves the wave on, an envelope gives its
volume, a length counter ends it, and a sweep raises or lowers the timer's period: on a half
frame the period `p` becomes `p + (p >>> shift)` or, negated, `p - (p >>> shift)`.  The two
channels differ only in negating: the first subtracts one more, since it complements without
adding one.

A period below 8, or one that the sweep would lift above `$7FF`, silences the channel, whether
the sweep is on or not.
-/

import Famicom.Apu.Envelope
import Famicom.Apu.Length

namespace Famicom
namespace Apu

/-- A timer period with its low byte replaced. -/
def withLowByte (period : Nat) (v : UInt8) : Nat := period / 256 % 8 * 256 + v.toNat

/-- A timer period with its upper three bits replaced by the low bits of `v`. -/
def withHighBits (period : Nat) (v : UInt8) : Nat := v.toNat % 8 * 256 + period % 256

/-- The period stays within eleven bits when its low byte is written, -/
theorem withLowByte_lt (period : Nat) (v : UInt8) : withLowByte period v < 0x800 := by
  have := v.toNat_lt
  unfold withLowByte
  omega

/-- and when its upper ones are. -/
theorem withHighBits_lt (period : Nat) (v : UInt8) : withHighBits period v < 0x800 := by
  unfold withHighBits
  omega

/-- The unit that slides a pulse channel's pitch. -/
structure Sweep where
  enabled : Bool := false
  /-- The half frames between two changes, less one. -/
  period : Nat := 0
  negate : Bool := false
  shift : Nat := 0
  /-- The half frames until the next change. -/
  divider : Nat := 0
  /-- Whether the divider starts again at the next half frame. -/
  reload : Bool := false
deriving DecidableEq, Repr

/-- The two pulse channels. -/
inductive Pulse.Number where
  | one
  | two
deriving DecidableEq, Repr

/-- A pulse channel. -/
structure Pulse where
  number : Pulse.Number
  /-- Which of the four waves. -/
  duty : Nat := 0
  /-- The place in the wave. -/
  step : Nat := 0
  timerPeriod : Nat := 0
  timer : Nat := 0
  envelope : Envelope := {}
  length : Length := {}
  sweep : Sweep := {}
deriving DecidableEq, Repr

namespace Pulse

/-- The four waves, a bit for each step: high for one, two, four and six steps of eight. -/
def wave (duty : Nat) : Nat :=
  match duty with
  | 0 => 0x02
  | 1 => 0x06
  | 2 => 0x1E
  | _ => 0xF9

/-- The control register: wave, length halt, envelope. -/
def writeControl (p : Pulse) (v : UInt8) : Pulse :=
  { p with
    duty := v.toNat / 64
    length := { p.length with halt := v &&& 0x20 != 0 }
    envelope := p.envelope.write v }

/-- The sweep register. -/
def writeSweep (p : Pulse) (v : UInt8) : Pulse :=
  { p with sweep := { p.sweep with
      enabled := v &&& 0x80 != 0
      period := v.toNat / 16 % 8
      negate := v &&& 0x08 != 0
      shift := v.toNat % 8
      reload := true } }

/-- The low byte of the timer's period. -/
def writeTimerLow (p : Pulse) (v : UInt8) : Pulse :=
  { p with timerPeriod := withLowByte p.timerPeriod v }

/-- The upper bits of the timer's period and the length.  The wave and the envelope start
again. -/
def writeTimerHigh (p : Pulse) (v : UInt8) : Pulse :=
  { p with
    timerPeriod := withHighBits p.timerPeriod v
    length := p.length.load (v >>> 3)
    step := 0
    envelope := p.envelope.restart }

/-- Switch the channel on or off. -/
def setEnabled (p : Pulse) (enabled : Bool) : Pulse :=
  { p with length := p.length.setEnabled enabled }

/-- A cycle of the timer passes. -/
def clockTimer (p : Pulse) : Pulse :=
  if p.timer = 0 then { p with timer := p.timerPeriod, step := (p.step + 1) % 8 }
  else { p with timer := p.timer - 1 }

/-- A quarter frame passes. -/
def clockQuarter (p : Pulse) : Pulse := { p with envelope := p.envelope.clock }

/-- The period that the sweep aims at. -/
def targetPeriod (p : Pulse) : Nat :=
  let change := p.timerPeriod >>> p.sweep.shift
  if p.sweep.negate then
    match p.number with
    | .one => p.timerPeriod - (change + 1)
    | .two => p.timerPeriod - change
  else p.timerPeriod + change

/-- Whether the period silences the channel. -/
def muted (p : Pulse) : Bool := p.timerPeriod < 8 || 0x7FF < p.targetPeriod

/-- Whether the sweep changes the period at the next half frame. -/
def sweeps (p : Pulse) : Bool :=
  p.sweep.divider == 0 && p.sweep.enabled && 0 < p.sweep.shift && !p.muted

/-- A half frame passes. -/
def clockHalf (p : Pulse) : Pulse :=
  { p with
    length := p.length.clock
    timerPeriod := if p.sweeps then p.targetPeriod else p.timerPeriod
    sweep :=
      if p.sweep.divider = 0 || p.sweep.reload then
        { p.sweep with divider := p.sweep.period, reload := false }
      else
        { p.sweep with divider := p.sweep.divider - 1 } }

/-- The output, from 0 to 15. -/
def output (p : Pulse) : Nat :=
  if !p.length.active || p.muted || !(wave p.duty).testBit p.step then 0
  else p.envelope.volume

end Pulse
end Apu
end Famicom
