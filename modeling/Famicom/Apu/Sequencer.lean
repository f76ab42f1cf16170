/-
# The frame sequencer

The sequencer counts cycles and beats time for the channels.  A quarter beat clocks envelopes and
the linear counter; a half beat clocks lengths and sweeps as well.

| cycle | four steps | five steps |
| ---: | --- | --- |
| 7457 | quarter | quarter |
| 14913 | half | half |
| 22371 | quarter | quarter |
| 29829 | half, interrupt | |
| 29830 | start again | |
| 37281 | | half |
| 37282 | | start again |
-/

namespace Famicom
namespace Apu

/-- What the channels hear in a cycle. -/
inductive Beat where
  | none
  | quarter
  | half
deriving DecidableEq, Repr

/-- The frame sequencer. -/
structure Sequencer where
  /-- The cycles since it started. -/
  cycle : Nat := 0
  fiveStep : Bool := false
  inhibit : Bool := false
  irq : Bool := false
deriving DecidableEq, Repr

namespace Sequencer

/-- The number of cycles after which the sequencer starts again. -/
def period (fiveStep : Bool) : Nat := if fiveStep then 37282 else 29830

/-- The beat in the cycle with a given number. -/
def beatAt (fiveStep : Bool) (cycle : Nat) : Beat :=
  if cycle = 7457 ∨ cycle = 22371 then .quarter
  else if cycle = 14913 then .half
  else if cycle = (if fiveStep then 37281 else 29829) then .half
  else .none

/-- Whether the cycle with a given number requests an interrupt. -/
def irqAt (fiveStep : Bool) (cycle : Nat) : Bool := !fiveStep && cycle == 29829

/-- One cycle passes. -/
def tick (s : Sequencer) : Beat × Sequencer :=
  let cycle := s.cycle + 1
  (beatAt s.fiveStep cycle,
    { s with
      cycle := if period s.fiveStep ≤ cycle then 0 else cycle
      irq := s.irq || irqAt s.fiveStep cycle && !s.inhibit })

/-- A write to the sequencer's register: it starts again, and with five steps it begins with a
half beat. -/
def write (s : Sequencer) (v : UInt8) : Beat × Sequencer :=
  let fiveStep := v &&& 0x80 != 0
  let inhibit := v &&& 0x40 != 0
  (if fiveStep then .half else .none,
    { cycle := 0, fiveStep, inhibit, irq := s.irq && !inhibit })

end Sequencer
end Apu
end Famicom
