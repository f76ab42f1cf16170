/-
# Plain memory

The simplest bus: 64 KB of memory, and a switch for the interrupt line.  Reading it changes
nothing.
-/

import Famicom.Bus.Basic

namespace Famicom
namespace Bus

/-- A bus of 64 KB of memory. -/
structure Flat where
  cells : Vector UInt8 65536 := Vector.replicate 65536 0
  /-- Whether an interrupt is being requested. -/
  irq : Bool := false

namespace Flat

/-- The byte at an address. -/
def get (m : Flat) (address : UInt16) : UInt8 :=
  have := address.toNat_lt
  m.cells[address.toNat]

/-- The memory with a byte put at an address. -/
def set (m : Flat) (address : UInt16) (value : UInt8) : Flat :=
  { m with cells := m.cells.set address.toNat value address.toNat_lt }

instance : Bus Flat where
  read m address := (m.get address, m)
  write := set
  irqLine := irq

/-- **What memory holds after a write.** -/
theorem get_set (m : Flat) (a b : UInt16) (v : UInt8) :
    (m.set a v).get b = if a = b then v else m.get b := by
  simp only [get, set, Vector.getElem_set, UInt16.toNat_inj]

end Flat
end Bus
end Famicom
