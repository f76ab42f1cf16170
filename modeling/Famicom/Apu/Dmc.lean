/-
# The delta modulation channel

The channel plays bytes from memory, a bit at a time, the lowest first: a one lifts the output by
two, a zero lowers it by two, and a step that would leave 0–127 is not made.

Two parts share a buffer of one byte.  The shifter takes the buffer when its eight bits are used
up and is silent if there is nothing in it.  The reader wants a byte whenever the buffer is empty
and bytes of the sample are left; it cannot reach memory by itself, so it only says which address
it wants (`fetchAddress?`) and is given the byte (`fill`).  After the last byte it starts the
sample again, or requests an interrupt.
-/

import Famicom.Apu.Period

namespace Famicom
namespace Apu

/-- The delta modulation channel. -/
structure Dmc where
  irqEnabled : Bool := false
  looping : Bool := false
  /-- The cycles that a bit takes. -/
  rate : Nat := 428
  timer : Nat := 0
  /-- The output, from 0 to 127. -/
  level : Nat := 0
  /-- Where the sample starts. -/
  sampleAddress : UInt16 := 0xC000
  /-- How many bytes it has. -/
  sampleLength : Nat := 1
  /-- Where the next byte is. -/
  address : UInt16 := 0xC000
  /-- How many bytes are left to be read. -/
  bytesLeft : Nat := 0
  buffer : Option UInt8 := none
  shift : UInt8 := 0
  /-- How many bits are left in the shifter. -/
  bitsLeft : Nat := 8
  silent : Bool := true
  irq : Bool := false
deriving DecidableEq, Repr

namespace Dmc

/-- The control register: interrupt, loop, rate.  Switching the interrupt off takes a request
back. -/
def writeControl (d : Dmc) (v : UInt8) : Dmc :=
  { d with
    irqEnabled := v &&& 0x80 != 0
    irq := d.irq && v &&& 0x80 != 0
    looping := v &&& 0x40 != 0
    rate := Period.choose Period.delta v }

/-- Set the output. -/
def writeLevel (d : Dmc) (v : UInt8) : Dmc := { d with level := v.toNat % 128 }

/-- Set where the sample starts: at `$C000` and 64 further on for each unit. -/
def writeAddress (d : Dmc) (v : UInt8) : Dmc :=
  { d with sampleAddress := 0xC000 + v.toUInt16 * 64 }

/-- Set the length of the sample: one byte and sixteen more for each unit. -/
def writeLength (d : Dmc) (v : UInt8) : Dmc := { d with sampleLength := v.toNat * 16 + 1 }

/-- Go back to the start of the sample. -/
def restart (d : Dmc) : Dmc := { d with address := d.sampleAddress, bytesLeft := d.sampleLength }

/-- Whether bytes are left to be read. -/
def active (d : Dmc) : Bool := 0 < d.bytesLeft

/-- Switch the channel on or off.  Switching it on starts the sample unless it is being
read. -/
def setEnabled (d : Dmc) (enabled : Bool) : Dmc :=
  if !enabled then { d with bytesLeft := 0 }
  else if d.active then d
  else d.restart

/-- Take a request for an interrupt back. -/
def clearIrq (d : Dmc) : Dmc := { d with irq := false }

/-- The address of the byte that the reader wants, if it wants one. -/
@[inline] def fetchAddress? (d : Dmc) : Option UInt16 :=
  if d.buffer.isNone && d.active then some d.address else none

/-- The address of the byte after the one at `address`: the end of memory is followed by
`$8000`. -/
def nextAddress (address : UInt16) : UInt16 := if address = 0xFFFF then 0x8000 else address + 1

/-- Give the reader a byte. -/
def fill (d : Dmc) (v : UInt8) : Dmc :=
  let d := { d with
    buffer := some v
    address := nextAddress d.address
    bytesLeft := d.bytesLeft - 1 }
  if d.bytesLeft ≠ 0 then d
  else if d.looping then d.restart
  else { d with irq := d.irq || d.irqEnabled }

/-- The output after a bit. -/
def nextLevel (level : Nat) (bit : Bool) : Nat :=
  if bit then if level ≤ 125 then level + 2 else level
  else if 2 ≤ level then level - 2 else level

/-- The level stays within seven bits. -/
theorem nextLevel_le {level : Nat} (h : level ≤ 127) (bit : Bool) : nextLevel level bit ≤ 127 := by
  unfold nextLevel
  split
  · split <;> omega
  · split <;> omega

/-- Use up a bit of the shifter. -/
def shiftOut (d : Dmc) : Dmc :=
  let d := { d with
    level := if d.silent then d.level else nextLevel d.level (d.shift &&& 0x01 != 0)
    shift := d.shift >>> 1
    bitsLeft := d.bitsLeft - 1 }
  if d.bitsLeft ≠ 0 then d
  else
    match d.buffer with
    | some v => { d with bitsLeft := 8, buffer := none, shift := v, silent := false }
    | none => { d with bitsLeft := 8, silent := true }

/-- A cycle of the timer passes. -/
def clockTimer (d : Dmc) : Dmc :=
  if 0 < d.timer then { d with timer := d.timer - 1 }
  else shiftOut { d with timer := d.rate - 1 }

end Dmc
end Apu
end Famicom
