/-
# The sound unit

Five channels, the sequencer that beats time for them, and the way from their outputs to samples.
The triangle and the delta modulation channel run at the processor's clock, the others at half of
it.

| address | register |
| --- | --- |
| `$4000`–`$4003` | first pulse: control, sweep, timer low, timer high |
| `$4004`–`$4007` | second pulse, likewise |
| `$4008`, `$400A`, `$400B` | triangle: control, timer low, timer high |
| `$400C`, `$400E`, `$400F` | noise: control, period, length |
| `$4010`–`$4013` | delta modulation: control, level, address, length |
| `$4015` | write: channels on and off; read: what is active |
| `$4017` | sequencer |
-/

import Famicom.Apu.Dmc
import Famicom.Apu.Mixer
import Famicom.Apu.Noise
import Famicom.Apu.Resampler
import Famicom.Apu.Sequencer
import Famicom.Apu.Triangle
import Famicom.Notice

namespace Famicom

/-- The sound unit. -/
structure Apu where
  pulse1 : Apu.Pulse := { number := .one }
  pulse2 : Apu.Pulse := { number := .two }
  triangle : Apu.Triangle := {}
  noise : Apu.Noise := {}
  dmc : Apu.Dmc := {}
  sequencer : Apu.Sequencer := {}
  /-- The cycles since power-on or reset. -/
  cycles : Nat := 0
  resampler : Apu.Resampler := {}

namespace Apu

/-- The sound unit at power-on, for a sample rate. -/
def ofRate (rate : Nat) : Apu := { resampler := .ofRate rate }

/-- The sound unit after a reset; the sample rate stays. -/
def reset (a : Apu) : Apu := ofRate a.resampler.rate

/-- A cycle of all timers passes. -/
def clockTimers (a : Apu) : Apu :=
  let a := { a with
    triangle := a.triangle.clockTimer
    dmc := a.dmc.clockTimer
    cycles := a.cycles + 1 }
  if a.cycles % 2 = 0 then
    { a with
      pulse1 := a.pulse1.clockTimer
      pulse2 := a.pulse2.clockTimer
      noise := a.noise.clockTimer }
  else a

/-- A quarter frame passes. -/
def clockQuarter (a : Apu) : Apu :=
  { a with
    pulse1 := a.pulse1.clockQuarter
    pulse2 := a.pulse2.clockQuarter
    triangle := a.triangle.clockQuarter
    noise := a.noise.clockQuarter }

/-- A half frame passes. -/
def clockHalf (a : Apu) : Apu :=
  { a with
    pulse1 := a.pulse1.clockHalf
    pulse2 := a.pulse2.clockHalf
    triangle := a.triangle.clockHalf
    noise := a.noise.clockHalf }

/-- The channels hear a beat. -/
def hear (a : Apu) (beat : Beat) : Apu :=
  match beat with
  | .none => a
  | .quarter => a.clockQuarter
  | .half => a.clockQuarter.clockHalf

/-- The level of the mixed channels. -/
def level (a : Apu) : Float32 :=
  Mixer.level a.pulse1.output a.pulse2.output a.triangle.output a.noise.output a.dmc.level

/-- The sequencer goes one cycle on. -/
def clockSequencer (a : Apu) : Apu :=
  let (beat, sequencer) := a.sequencer.tick
  { a with sequencer }.hear beat

/-- The resampler takes this cycle's level. -/
def resample (a : Apu) : Apu :=
  let level := a.level
  { a with resampler := a.resampler.tick level }

/-- One cycle passes. -/
def tick (a : Apu) : Apu := a.clockTimers.clockSequencer.resample

/-- Switch the channels on and off, a bit for each; a request of the delta modulation channel is
taken back. -/
def enableChannels (a : Apu) (v : UInt8) : Apu :=
  { a with
    pulse1 := a.pulse1.setEnabled (v &&& 0x01 != 0)
    pulse2 := a.pulse2.setEnabled (v &&& 0x02 != 0)
    triangle := a.triangle.setEnabled (v &&& 0x04 != 0)
    noise := a.noise.setEnabled (v &&& 0x08 != 0)
    dmc := (a.dmc.setEnabled (v &&& 0x10 != 0)).clearIrq }

/-- Write the sequencer's register. -/
def writeSequencer (a : Apu) (v : UInt8) : Apu :=
  let (beat, sequencer) := a.sequencer.write v
  { a with sequencer }.hear beat

/-- Write a register. -/
def write (a : Apu) (address : UInt16) (v : UInt8) : Apu :=
  match address with
  | 0x4000 => { a with pulse1 := a.pulse1.writeControl v }
  | 0x4001 => { a with pulse1 := a.pulse1.writeSweep v }
  | 0x4002 => { a with pulse1 := a.pulse1.writeTimerLow v }
  | 0x4003 => { a with pulse1 := a.pulse1.writeTimerHigh v }
  | 0x4004 => { a with pulse2 := a.pulse2.writeControl v }
  | 0x4005 => { a with pulse2 := a.pulse2.writeSweep v }
  | 0x4006 => { a with pulse2 := a.pulse2.writeTimerLow v }
  | 0x4007 => { a with pulse2 := a.pulse2.writeTimerHigh v }
  | 0x4008 => { a with triangle := a.triangle.writeControl v }
  | 0x400A => { a with triangle := a.triangle.writeTimerLow v }
  | 0x400B => { a with triangle := a.triangle.writeTimerHigh v }
  | 0x400C => { a with noise := a.noise.writeControl v }
  | 0x400E => { a with noise := a.noise.writePeriod v }
  | 0x400F => { a with noise := a.noise.writeLength v }
  | 0x4010 => { a with dmc := a.dmc.writeControl v }
  | 0x4011 => { a with dmc := a.dmc.writeLevel v }
  | 0x4012 => { a with dmc := a.dmc.writeAddress v }
  | 0x4013 => { a with dmc := a.dmc.writeLength v }
  | 0x4015 => a.enableChannels v
  | 0x4017 => a.writeSequencer v
  | _ => a

/-- What the status register shows. -/
def status (a : Apu) : UInt8 :=
  (if a.pulse1.length.active then 0x01 else 0) |||
  (if a.pulse2.length.active then 0x02 else 0) |||
  (if a.triangle.length.active then 0x04 else 0) |||
  (if a.noise.length.active then 0x08 else 0) |||
  (if a.dmc.active then 0x10 else 0) |||
  (if a.sequencer.irq then 0x40 else 0) |||
  (if a.dmc.irq then 0x80 else 0)

/-- Read the status register.  The sequencer's request is taken back. -/
def readStatus (a : Apu) : UInt8 × Apu :=
  (a.status, { a with sequencer := { a.sequencer with irq := false } })

/-- Whether an interrupt is being requested. -/
@[inline] def irqLine (a : Apu) : Bool := a.sequencer.irq || a.dmc.irq

/-- Give the delta modulation channel a byte. -/
def fill (a : Apu) (v : UInt8) : Apu := { a with dmc := a.dmc.fill v }

/-- The samples since they were last dropped. -/
def samples (a : Apu) : Array Float32 := a.resampler.samples

/-- Drop the samples. -/
def clearSamples (a : Apu) : Apu := { a with resampler := a.resampler.clear }

/-- What is reported of a write, if anything. -/
def notice? (address : UInt16) (v : UInt8) : Option Notice :=
  if address = 0x4017 then
    some {
      level := .debug
      text := "APU frame sequencer: " ++ (if v &&& 0x80 != 0 then "5" else "4") ++ "-step, IRQ " ++
        if v &&& 0x40 != 0 then "inhibited" else "enabled" }
  else none

end Apu
end Famicom
