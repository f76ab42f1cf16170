/-
# The accesses of a run

A bus with a record of the accesses that are made to it is a bus that the processor cannot tell
from the one without (`Bus.Recorded.simulation`).  So what the processor does with a bus can be
read off the record: the accesses that it makes are those that are found there afterwards.
-/

import Famicom.Bus.Recorded
import Famicom.Proofs.Bus.Simulation

namespace Famicom
namespace Bus

/-- Where an access reads, if it reads. -/
def Access.readAt : Access → Option UInt16
  | read address _ => some address
  | write _ _ => none

/-- Where an access writes, if it writes. -/
def Access.writtenAt : Access → Option UInt16
  | read _ _ => none
  | write address _ => some address

namespace Recorded

variable {β : Type} [Bus β]

/-- A bus with a record is the one given, but for the record. -/
def Records (r : Recorded β) (bus : β) : Prop := r.bus = bus

/-- **The record changes nothing for the processor.** -/
theorem simulation : Simulation (Records (β := β)) where
  read := by
    rintro r bus rfl address
    exact ⟨_, _, _, rfl, rfl, rfl⟩
  write := by
    rintro r bus rfl address v
    rfl
  irqLine := by
    rintro r bus rfl
    rfl

end Recorded

/-- A few bytes of memory from address zero on, and nothing that could request an interrupt. -/
structure Cells where
  bytes : List UInt8
deriving DecidableEq, Repr

instance : Bus Cells where
  read b address := (b.bytes.getD address.toNat 0, b)
  write b address v := ⟨b.bytes.set address.toNat v⟩
  irqLine _ := false

end Bus
end Famicom
