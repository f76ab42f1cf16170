/-
# Tables of periods

The noise and the delta modulation channel do not take any period for their timers: they take one
of sixteen, which the low four bits of a control byte choose.
-/

namespace Famicom
namespace Apu
namespace Period

/-- The periods of the noise channel, at half the processor's clock. -/
def noise : Vector Nat 16 := #v[
  2, 4, 8, 16, 32, 48, 64, 80, 101, 127, 190, 254, 381, 508, 1017, 2034]

/-- The periods of the delta modulation channel, at the processor's clock. -/
def delta : Vector Nat 16 := #v[
  428, 380, 340, 320, 286, 254, 226, 214, 190, 160, 142, 128, 106, 84, 72, 54]

/-- The period that a control byte chooses. -/
def choose (table : Vector Nat 16) (v : UInt8) : Nat := table[v.toNat % 16]

/-- Every period of the noise is positive, -/
theorem choose_noise_pos (v : UInt8) : 0 < choose noise v := by
  have key : ∀ i : Fin 16, 0 < noise[i] := by decide
  exact key ⟨v.toNat % 16, Nat.mod_lt _ (by decide)⟩

/-- and so is that of every rate. -/
theorem choose_delta_pos (v : UInt8) : 0 < choose delta v := by
  have key : ∀ i : Fin 16, 0 < delta[i] := by decide
  exact key ⟨v.toNat % 16, Nat.mod_lt _ (by decide)⟩

end Period
end Apu
end Famicom
