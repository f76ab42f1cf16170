/-
# The triangle channel

A wave of 32 steps, down from 15 to 0 and up again.  Its timer moves it on only while both the
length counter and a second, linear counter are not zero; when they stop it, it holds its level.
-/

import Famicom.Apu.Pulse

namespace Famicom
namespace Apu

/-- The triangle channel. -/
structure Triangle where
  /-- Whether the linear counter is loaded again at every quarter frame. -/
  control : Bool := false
  linearLoad : Nat := 0
  linearCounter : Nat := 0
  linearReload : Bool := false
  timerPeriod : Nat := 0
  timer : Nat := 0
  /-- The place in the wave. -/
  step : Nat := 0
  length : Length := {}
deriving DecidableEq, Repr

namespace Triangle

/-- The control register: length halt and linear counter. -/
def writeControl (t : Triangle) (v : UInt8) : Triangle :=
  { t with
    control := v &&& 0x80 != 0
    length := { t.length with halt := v &&& 0x80 != 0 }
    linearLoad := v.toNat % 128 }

/-- The low byte of the timer's period. -/
def writeTimerLow (t : Triangle) (v : UInt8) : Triangle :=
  { t with timerPeriod := withLowByte t.timerPeriod v }

/-- The upper bits of the timer's period and the length.  The linear counter is loaded at the
next quarter frame. -/
def writeTimerHigh (t : Triangle) (v : UInt8) : Triangle :=
  { t with
    timerPeriod := withHighBits t.timerPeriod v
    length := t.length.load (v >>> 3)
    linearReload := true }

/-- Switch the channel on or off. -/
def setEnabled (t : Triangle) (enabled : Bool) : Triangle :=
  { t with length := t.length.setEnabled enabled }

/-- A cycle of the timer passes. -/
def clockTimer (t : Triangle) : Triangle :=
  if t.timer = 0 then
    { t with
      timer := t.timerPeriod
      step := if t.length.active && 0 < t.linearCounter then (t.step + 1) % 32 else t.step }
  else { t with timer := t.timer - 1 }

/-- A quarter frame passes. -/
def clockQuarter (t : Triangle) : Triangle :=
  { t with
    linearCounter := if t.linearReload then t.linearLoad else t.linearCounter - 1
    linearReload := t.control && t.linearReload }

/-- A half frame passes. -/
def clockHalf (t : Triangle) : Triangle := { t with length := t.length.clock }

/-- The output, from 0 to 15. -/
def output (t : Triangle) : Nat := if t.step < 16 then 15 - t.step else t.step - 16

/-- The output has four bits. -/
theorem output_le {t : Triangle} (h : t.step < 32) : t.output ≤ 15 := by
  unfold output
  split <;> omega

end Triangle
end Apu
end Famicom
