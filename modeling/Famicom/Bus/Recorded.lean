/-
# A bus with a log

`Recorded` stands between the processor and any other bus and notes every access, so that the
accesses of a run are part of its result.
-/

import Famicom.Bus.Basic
import Famicom.Hex

namespace Famicom
namespace Bus

/-- One access to a bus. -/
inductive Access where
  | read (address : UInt16) (value : UInt8)
  | write (address : UInt16) (value : UInt8)
deriving DecidableEq, Repr

/-- An access as text. -/
def Access.render : Access → String
  | read address value => "R" ++ Hex.word address ++ ":" ++ Hex.byte value
  | write address value => "W" ++ Hex.word address ++ ":" ++ Hex.byte value

/-- A bus with the accesses made to it, the last one in front. -/
structure Recorded (β : Type) where
  bus : β
  accesses : List Access := []

instance {β : Type} [Bus β] : Bus (Recorded β) where
  read b address :=
    let (value, bus) := Bus.read b.bus address
    (value, ⟨bus, .read address value :: b.accesses⟩)
  write b address value := ⟨Bus.write b.bus address value, .write address value :: b.accesses⟩
  irqLine b := Bus.irqLine b.bus

end Bus
end Famicom
