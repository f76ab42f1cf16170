/-
# Envelopes

An envelope is a volume from 0 to 15.  It is constant, or it starts at 15 and loses one in every
`period + 1` quarter frames, and at zero it stays there or starts again.
-/

namespace Famicom
namespace Apu

/-- An envelope. -/
structure Envelope where
  /-- Whether the next quarter frame starts it again. -/
  start : Bool := false
  /-- The quarter frames until the volume falls. -/
  divider : Nat := 0
  /-- The falling volume. -/
  decay : Nat := 0
  /-- The constant volume, or the quarter frames between two falls, less one. -/
  period : Nat := 0
  looping : Bool := false
  constant : Bool := false
deriving DecidableEq, Repr

namespace Envelope

/-- Set the low six bits of a channel's control register. -/
def write (e : Envelope) (v : UInt8) : Envelope :=
  { e with
    looping := v &&& 0x20 != 0
    constant := v &&& 0x10 != 0
    period := v.toNat % 16 }

/-- Start the envelope again at the next quarter frame. -/
def restart (e : Envelope) : Envelope := { e with start := true }

/-- A quarter frame passes. -/
def clock (e : Envelope) : Envelope :=
  if e.start then
    { e with start := false, decay := 15, divider := e.period }
  else if e.divider = 0 then
    { e with
      divider := e.period
      decay := if 0 < e.decay then e.decay - 1 else if e.looping then 15 else 0 }
  else
    { e with divider := e.divider - 1 }

/-- The volume stays within four bits. -/
theorem decay_clock_le {e : Envelope} (h : e.decay ≤ 15) : e.clock.decay ≤ 15 := by
  unfold clock
  split
  · exact Nat.le_refl 15
  · split
    · dsimp only
      split
      · exact Nat.le_trans (Nat.sub_le _ _) h
      · split <;> decide
    · exact h

/-- The volume. -/
@[inline] def volume (e : Envelope) : Nat := if e.constant then e.period else e.decay

end Envelope
end Apu
end Famicom
