/-
# Cartridges and their images

An image is a header followed by the parts it announces, without gaps:

| part | bytes |
| --- | ---: |
| header | 16 |
| trainer, if bit 2 of flags 6 is set | 512 |
| program ROM | 16384 for each bank |
| character ROM | 8192 for each bank |

What follows the last part is ignored.  A cartridge without character ROM gets 8 KB of
character RAM, which starts out as zeros.  The first part that does not fit into the image is
the one that is complained about.
-/

import Famicom.Cartridge.Header
import Famicom.Chip
import Famicom.Notice

namespace Famicom

/-- A cartridge: what its header says and what its chips hold. -/
structure Cartridge where
  header : Cartridge.Header
  trainer : Option (Array UInt8)
  prg : Chip
  chr : Chip

namespace Cartridge

/-- The size of a trainer. -/
def trainerSize : Nat := 512

/-- The size of a bank of program ROM. -/
def prgBankSize : Nat := 16384

/-- The size of a bank of character memory. -/
def chrBankSize : Nat := 8192

/-- The chip that `length` bytes of the image from `offset` on fill. -/
def chipAt (image : Array UInt8) (offset length : Nat) (pos : 0 < length) : Except Fault Chip :=
  if h : offset + length ≤ image.size then
    .ok (.ofSlice image offset length pos h)
  else
    .error (.truncated (offset + length) image.size)

/-- The trainer of an image whose header is `h`. -/
def trainerOf (h : Header) (image : Array UInt8) : Except Fault (Option (Array UInt8)) :=
  if h.hasTrainer then
    if Header.size + trainerSize ≤ image.size then
      .ok (some (image.extract Header.size (Header.size + trainerSize)))
    else
      .error (.truncated (Header.size + trainerSize) image.size)
  else
    .ok none

/-- Where the program ROM starts. -/
def prgOffset (h : Header) : Nat := Header.size + if h.hasTrainer then trainerSize else 0

/-- The size of the program ROM. -/
def prgSize (h : Header) : Nat := h.prgBanks * prgBankSize

/-- No cartridge is without program ROM. -/
theorem prgSize_pos (h : Header) : 0 < prgSize h := by
  have := h.prgBanks_pos
  unfold prgSize prgBankSize
  omega

/-- The character chip of an image whose header is `h`: a slice, or zeros if there is no
character ROM. -/
def chrOf (h : Header) (image : Array UInt8) : Except Fault Chip :=
  if pos : h.chrBanks = 0 then
    .ok (.zeros chrBankSize (by decide))
  else
    chipAt image (prgOffset h + prgSize h) (h.chrBanks * chrBankSize) (by
      unfold chrBankSize; omega)

/-- Read a cartridge from its image. -/
def parse (image : Array UInt8) : Except Fault Cartridge := do
  let header ← Header.parse image
  let trainer ← trainerOf header image
  let prg ← chipAt image (prgOffset header) (prgSize header) (prgSize_pos header)
  let chr ← chrOf header image
  return { header, trainer, prg, chr }

/-- Whether the character memory can be written. -/
def chrIsRam (c : Cartridge) : Bool := c.header.chrBanks == 0

/-- What is reported of a cartridge once it has been read. -/
def loadedNotice (c : Cartridge) : Notice where
  level := .info
  text := "loaded cartridge: mapper " ++ c.header.board.toNat.repr ++
    ", " ++ (c.prg.size / 1024).repr ++ "KB PRG, " ++
    (c.chr.size / 1024).repr ++ "KB CHR" ++ (if c.chrIsRam then " RAM" else "") ++
    ", " ++ c.header.mirroring.name ++ " mirroring"

end Cartridge
end Famicom
