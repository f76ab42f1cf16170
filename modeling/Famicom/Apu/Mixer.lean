/-
# The mixer

The five outputs meet in two resistor networks, so that the sum is not linear: the pulses in one,
triangle, noise and delta modulation in the other.

The formula does not say what arithmetic it is meant for: it is given for any numbers that can be
added, divided and compared with zero.  The sound unit takes single precision for its levels.
-/

namespace Famicom
namespace Apu
namespace Mixer

variable {α : Type} [Add α] [Div α] [BEq α] [OfScientific α]

/-- An output as a number. -/
@[inline] def number (n : Nat) : α := OfScientific.ofScientific n false 0

/-- The level of a network for what comes in; nothing gives silence. -/
@[inline] def network (gain load input : α) : α :=
  if input == 0.0 then 0.0 else gain / (load / input + 100.0)

/-- The level of the two pulses, `n` being the sum of their outputs. -/
@[inline] def pulseLevel (n : Nat) : α := network 95.88 8128.0 (number n)

/-- The level of the other three channels. -/
@[inline] def restLevel (triangle noise dmc : Nat) : α :=
  network 159.79 1.0 (number triangle / 8227.0 + number noise / 12241.0 + number dmc / 22638.0)

/-- The level of all five. -/
@[inline] def level (pulse1 pulse2 triangle noise dmc : Nat) : α :=
  pulseLevel (pulse1 + pulse2) + restLevel triangle noise dmc

end Mixer
end Apu
end Famicom
