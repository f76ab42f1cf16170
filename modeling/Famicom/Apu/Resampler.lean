/-
# From cycles to samples

The mixer gives a level in every cycle, far more than anyone wants to hear.  The resampler hands
on the mean of the levels since its last sample, whenever a clock that counts cycles has passed
the number of cycles in a sample; the surplus stays on the clock, so that no time is lost.
-/

namespace Famicom
namespace Apu

/-- The cycles in a second. -/
def cyclesPerSecond : Nat := 1789773

/-- The number of samples in a second if nobody says otherwise. -/
def defaultRate : Nat := 44100

/-- The resampler. -/
structure Resampler where
  /-- The samples in a second. -/
  rate : Nat := defaultRate
  /-- The cycles since the last sample, as far as they are not accounted for. -/
  clock : Float := 0
  /-- The sum of the levels since the last sample. -/
  sum : Float32 := 0
  /-- The number of them. -/
  count : Nat := 0
  samples : Array Float32 := #[]

namespace Resampler

/-- A resampler for a rate; there is at least one sample in a second. -/
def ofRate (rate : Nat) : Resampler := { rate := max rate 1 }

/-- The cycles in a sample. -/
@[inline] def cyclesPerSample (r : Resampler) : Float :=
  cyclesPerSecond.toFloat / r.rate.toFloat

/-- Take the level of one cycle. -/
def tick (r : Resampler) (level : Float32) : Resampler :=
  let sum := r.sum + level
  let count := r.count + 1
  let clock := r.clock + 1.0
  if r.cyclesPerSample ≤ clock then
    { r with
      clock := clock - r.cyclesPerSample
      samples := r.samples.push (sum / count.toFloat32)
      sum := 0
      count := 0 }
  else { r with clock, sum, count }

/-- Drop the samples. -/
def clear (r : Resampler) : Resampler := { r with samples := #[] }

end Resampler
end Apu
end Famicom
