/-
# The background

Two tiles are always under way.  Over eight dots the bytes of the next tile are fetched into
latches, number, palette, and the two planes of its pattern; then they enter the lower half of
shift registers of 16 bits, which move up by one with every dot.  The pixel that is shown is taken
from near the top: the fine column says how far below it.
-/

import Famicom.Board.Basic
import Famicom.Ppu.Scroll

namespace Famicom
namespace Ppu

/-- The latches of the tile being fetched and the shift registers. -/
structure Background where
  /-- The number of the tile being fetched. -/
  tile : UInt8 := 0
  /-- Its palette. -/
  palette : Nat := 0
  /-- The low plane of its pattern row. -/
  low : UInt8 := 0
  /-- The high plane. -/
  high : UInt8 := 0
  patternLow : UInt16 := 0
  patternHigh : UInt16 := 0
  paletteLow : UInt16 := 0
  paletteHigh : UInt16 := 0
deriving DecidableEq, Repr

namespace Background

/-- The shift registers move up by one. -/
@[inline] def shift (b : Background) : Background :=
  { b with
    patternLow := b.patternLow <<< 1
    patternHigh := b.patternHigh <<< 1
    paletteLow := b.paletteLow <<< 1
    paletteHigh := b.paletteHigh <<< 1 }

/-- A shift register with its lower half replaced. -/
@[inline] def loadHalf (register : UInt16) (v : UInt8) : UInt16 :=
  register &&& 0xFF00 ||| v.toUInt16

/-- The fetched tile enters the shift registers. -/
def load (b : Background) : Background :=
  { b with
    patternLow := loadHalf b.patternLow b.low
    patternHigh := loadHalf b.patternHigh b.high
    paletteLow := loadHalf b.paletteLow (if b.palette % 2 = 1 then 0xFF else 0)
    paletteHigh := loadHalf b.paletteHigh (if b.palette / 2 % 2 = 1 then 0xFF else 0) }

/-- Where the low plane of the pattern row is: 16 bytes for each tile, the row of the place among
the first eight. -/
@[inline] def patternAddress (b : Background) (table : Nat) (v : Nat) : Nat :=
  table + b.tile.toNat * 16 + Place.fineRow v

/-- The fetch that falls on a dot, by its place in the group of eight: number, palette, low plane,
high plane, on every second dot. -/
@[inline] def fetch (b : Background) (board : Board) (table v phase : Nat) : Background :=
  match phase with
  | 0 => { b.load with tile := board.readPpu (Place.tileAddress v) }
  | 2 => { b with palette := Place.palette v (board.readPpu (Place.attributeAddress v)) }
  | 4 => { b with low := board.readPpu (b.patternAddress table v) }
  | 6 => { b with high := board.readPpu (b.patternAddress table v + 8) }
  | _ => b

/-- The palette address of the pixel that the shift registers show: the palette and the two bits of
the pattern, or zero where the pattern is transparent. -/
@[inline] def pixel (b : Background) (fineX : Nat) : UInt8 :=
  let bit : UInt16 := 0x8000 >>> UInt16.ofNat fineX
  let pattern : UInt8 :=
    (if b.patternLow &&& bit != 0 then 1 else 0) ||| if b.patternHigh &&& bit != 0 then 2 else 0
  if pattern == 0 then 0
  else
    pattern ||| (if b.paletteLow &&& bit != 0 then 4 else 0) |||
      if b.paletteHigh &&& bit != 0 then 8 else 0

end Background
end Ppu
end Famicom
