/-
# Buses

What a processor is wired to is any type with a `Bus` instance.  Reading may change the bus,
because a chip can notice that it is read; a word is read as two bytes, the low one first.
-/

import Famicom.Word

namespace Famicom

/-- What a processor can be wired to. -/
class Bus (β : Type) where
  /-- The byte at an address, and the bus after it has been read. -/
  read : β → UInt16 → UInt8 × β
  /-- The bus after a byte has been written to an address. -/
  write : β → UInt16 → UInt8 → β
  /-- Whether an interrupt is being requested. -/
  irqLine : β → Bool

namespace Bus

variable {β : Type} [Bus β]

/-- Read a word whose low byte is at `low` and whose high byte is at `high`. -/
@[specialize] def readWordAt (bus : β) (low high : UInt16) : UInt16 × β :=
  let (l, bus) := Bus.read bus low
  let (h, bus) := Bus.read bus high
  (Word.ofBytes l h, bus)

/-- Read the word at an address. -/
@[specialize] def readWord (bus : β) (address : UInt16) : UInt16 × β :=
  readWordAt bus address (address + 1)

/-- Read the word at an address of page zero without leaving the page. -/
@[specialize] def readZeroPageWord (bus : β) (address : UInt8) : UInt16 × β :=
  readWordAt bus address.toUInt16 (address + 1).toUInt16

end Bus
end Famicom
