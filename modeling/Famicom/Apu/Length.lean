/-
# Length counters

A length counter says for how many more half frames a channel sounds.  It is loaded from a table
of 32 lengths, stands still while it is halted, and is zero as long as its channel is switched
off.
-/

namespace Famicom
namespace Apu

/-- A length counter with its two switches. -/
structure Length where
  value : Nat := 0
  halt : Bool := false
  enabled : Bool := false
deriving DecidableEq, Repr

namespace Length

/-- The lengths that can be loaded. -/
def table : Vector Nat 32 := #v[
  10, 254, 20, 2, 40, 4, 80, 6, 160, 8, 60, 10, 14, 12, 26, 14,
  12, 16, 24, 18, 48, 20, 96, 22, 192, 24, 72, 26, 16, 28, 32, 30]

/-- Load the length with a given index; only the low five bits of the index count.  A channel
that is switched off is not loaded. -/
def load (l : Length) (index : UInt8) : Length :=
  if l.enabled then { l with value := table[index.toNat % 32] } else l

/-- Switch the channel on or off. -/
def setEnabled (l : Length) (enabled : Bool) : Length :=
  { l with enabled, value := if enabled then l.value else 0 }

/-- A half frame passes. -/
def clock (l : Length) : Length :=
  if l.halt then l else { l with value := l.value - 1 }

/-- Index 3 stands for two half frames; a channel that is off takes no length. -/
example : ({ enabled := true } : Length).load 3 = { value := 2, enabled := true } ∧
    ({} : Length).load 3 = {} := by decide

/-- Whether the channel still sounds. -/
@[inline] def active (l : Length) : Bool := 0 < l.value

end Length
end Apu
end Famicom
