/-
# The iNES header

Sixteen bytes open an image.  The first eight count:

| byte | meaning |
| ---: | --- |
| 0–3 | `N`, `E`, `S`, `$1A` |
| 4 | number of 16 KB banks of program ROM; zero counts as one |
| 5 | number of 8 KB banks of character ROM; zero means RAM |
| 6 | bit 0 vertical mirroring, bit 1 battery, bit 2 trainer, bit 3 four screens |
| | bits 4–7 board number, low half |
| 7 | bits 4–7 board number, high half |
-/

import Famicom.Cartridge.Fault
import Famicom.Cartridge.Mirroring

namespace Famicom
namespace Cartridge

/-- The bytes of a header that have a meaning. -/
structure Header where
  prgCount : UInt8
  chrCount : UInt8
  flags6 : UInt8
  flags7 : UInt8
deriving DecidableEq, Repr

namespace Header

/-- The number of bytes of a header. -/
def size : Nat := 16

/-- The four bytes that open an image. -/
def mark : Array UInt8 := #[0x4E, 0x45, 0x53, 0x1A]

/-- Read the header of an image.  A short image is refused before its mark is looked at. -/
def parse (image : Array UInt8) : Except Fault Header :=
  if h : image.size < size then
    .error (.truncated size image.size)
  else
    have : 16 ≤ image.size := Nat.le_of_not_lt h
    if image.extract 0 4 = mark then
      .ok ⟨image[4], image[5], image[6], image[7]⟩
    else
      .error .unmarked

/-- The number of 16 KB banks of program ROM. -/
def prgBanks (h : Header) : Nat := max h.prgCount.toNat 1

/-- The number of 8 KB banks of character ROM. -/
def chrBanks (h : Header) : Nat := h.chrCount.toNat

/-- The number that names the board. -/
def board (h : Header) : UInt8 := h.flags6 >>> 4 ||| h.flags7 &&& 0xF0

/-- Whether a trainer stands between the header and the program. -/
def hasTrainer (h : Header) : Bool := h.flags6 &&& 0x04 != 0

/-- Whether a battery keeps the program RAM. -/
def hasBattery (h : Header) : Bool := h.flags6 &&& 0x02 != 0

/-- Whether the cartridge has memory for four nametables. -/
def fourScreen (h : Header) : Bool := h.flags6 &&& 0x08 != 0

/-- The mirroring that the cartridge is wired for; four screens go before the other two. -/
def mirroring (h : Header) : Mirroring :=
  if h.fourScreen then .fourScreen
  else if h.flags6 &&& 0x01 != 0 then .vertical
  else .horizontal

/-- There is at least one bank of program. -/
theorem prgBanks_pos (h : Header) : 0 < h.prgBanks := by
  unfold prgBanks; omega

end Header
end Cartridge
end Famicom
