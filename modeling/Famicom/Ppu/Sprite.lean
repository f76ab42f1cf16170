/-
# Sprites

The object memory holds 64 sprites of four bytes: the line above the sprite, its tile, its
attributes, its column.  Attribute bits 0 and 1 are the palette, bit 5 puts the sprite behind the
background, bits 6 and 7 flip it left to right and top to bottom.

A line is drawn in three steps.  `evaluate` looks through the object memory, in order, for the
sprites that the line crosses, and stops at the ninth.  `Sprite.strip` fetches the pattern row of
each of those found.  `overlay` lays the strips over the line: of the opaque ones the first wins,
and only then is asked whether it lies behind the background.
-/

import Famicom.Board.Basic

namespace Famicom
namespace Ppu

/-- A sprite, as it stands in the object memory. -/
structure Sprite where
  y : UInt8
  tile : UInt8
  attributes : UInt8
  x : UInt8
deriving DecidableEq, Repr

namespace Sprite

/-- The sprite with number `i % 64`. -/
@[inline] def ofOam (oam : Vector UInt8 256) (i : Nat) : Sprite where
  y := oam[i % 64 * 4]
  tile := oam[i % 64 * 4 + 1]
  attributes := oam[i % 64 * 4 + 2]
  x := oam[i % 64 * 4 + 3]

/-- The first line of a sprite. -/
@[inline] def top (s : Sprite) : Nat := s.y.toNat + 1

/-- Whether a line crosses the sprite. -/
@[inline] def crosses (s : Sprite) (height line : Nat) : Bool :=
  s.top ≤ line && line < s.top + height

/-- Whether the sprite lies behind the background. -/
@[inline] def behind (attributes : UInt8) : Bool := attributes &&& 0x20 != 0

/-- The row of the pattern that a line shows. -/
def patternRow (s : Sprite) (height line : Nat) : Nat :=
  if s.attributes &&& 0x80 != 0 then height - 1 - (line - s.top) else line - s.top

/-- Where the low plane of a pattern row is.  A tall sprite is a pair of tiles and names its table
itself. -/
def patternAddress (s : Sprite) (height table row : Nat) : Nat :=
  if height = 16 then
    s.tile.toNat % 2 * 0x1000 + (s.tile.toNat / 2 * 2 + row / 8) * 16 + row % 8
  else
    table + s.tile.toNat * 16 + row

end Sprite

/-- The sprites that a line crosses, at most eight. -/
structure LineSprites where
  sprites : List Sprite := []
  /-- Their height. -/
  height : Nat := 8
  /-- Whether sprite 0 is among them. -/
  zero : Bool := false
  /-- Whether there is a ninth. -/
  overflow : Bool := false
deriving DecidableEq, Repr

/-- The number of sprites that a line can show. -/
def spritesPerLine : Nat := 8

/-- Look through the sprites with the given numbers for those that a line crosses, as long as there
is room. -/
def collect (oam : Vector UInt8 256) (height line : Nat) : List Nat → Nat → LineSprites
  | [], _ => { height }
  | i :: is, room =>
    let s := Sprite.ofOam oam i
    if s.crosses height line then
      match room with
      | 0 => { height, overflow := true }
      | room + 1 =>
        let rest := collect oam height line is room
        { rest with sprites := s :: rest.sprites, zero := i == 0 || rest.zero }
    else collect oam height line is room

/-- No more sprites are collected than there is room for, -/
theorem length_collect_le (oam : Vector UInt8 256) (height line : Nat) (is : List Nat)
    (room : Nat) : (collect oam height line is room).sprites.length ≤ room := by
  induction is generalizing room with
  | nil => exact Nat.zero_le _
  | cons i is ih =>
    cases room with
    | zero =>
      rw [collect]
      split
      · exact Nat.le_refl 0
      · exact ih 0
    | succ room =>
      rw [collect]
      split
      · exact Nat.succ_le_succ (ih room)
      · exact ih (room + 1)

/-- The sprites that a line crosses. -/
def evaluate (oam : Vector UInt8 256) (height line : Nat) : LineSprites :=
  collect oam height line (List.range 64) spritesPerLine

/-- which is eight on a line. -/
theorem length_evaluate_le (oam : Vector UInt8 256) (height line : Nat) :
    (evaluate oam height line).sprites.length ≤ spritesPerLine :=
  length_collect_le oam height line _ _

/-- The part of a sprite that shows on a line: eight pixels of two bits. -/
structure Strip where
  x : Nat
  attributes : UInt8
  low : UInt8
  high : UInt8
deriving DecidableEq, Repr

/-- The strip of a sprite on a line that crosses it. -/
def Sprite.strip (s : Sprite) (board : Board) (height table line : Nat) : Strip :=
  let address := s.patternAddress height table (s.patternRow height line)
  { x := s.x.toNat
    attributes := s.attributes
    low := board.readPpu address
    high := board.readPpu (address + 8) }

namespace Strip

/-- The two bits of the pattern at column `x` of the screen; zero is transparent. -/
@[inline] def pattern (s : Strip) (x : Nat) : UInt8 :=
  if s.x ≤ x ∧ x < s.x + 8 then
    let column := x - s.x
    let place := UInt8.ofNat (if s.attributes &&& 0x40 != 0 then column else 7 - column)
    (s.low >>> place &&& 0x01) + 2 * (s.high >>> place &&& 0x01)
  else 0

/-- Whether something shows at column `x`. -/
@[inline] def opaqueAt (s : Strip) (x : Nat) : Bool := s.pattern x != 0

/-- The palette address of a pixel of the strip. -/
def colour (s : Strip) (x : Nat) : UInt8 :=
  0x10 ||| (s.attributes &&& 0x03) * 4 ||| s.pattern x

end Strip

/-- Whether a pixel of the background is not transparent. -/
@[inline] def backgroundOpaque (pixel : UInt8) : Bool := pixel &&& 0x03 != 0

/-- Whether column `x` is not clipped, the left eight columns being shown or not. -/
@[inline] def unclipped (showLeft : Bool) (x : Nat) : Bool := showLeft || 8 ≤ x

/-- The pixel at column `x` once the strips lie over the background pixel `pixel`. -/
def overlayPixel (strips : List Strip) (showLeft : Bool) (x : Nat) (pixel : UInt8) : UInt8 :=
  if unclipped showLeft x then
    match strips.find? (·.opaqueAt x) with
    | none => pixel
    | some s => if Sprite.behind s.attributes && backgroundOpaque pixel then pixel else s.colour x
  else pixel

/-- The pixels of a line with strips laid over it. -/
def overlay (strips : List Strip) (showLeft : Bool) (pixels : Vector UInt8 256) :
    Vector UInt8 256 :=
  if strips.isEmpty then pixels else pixels.mapIdx (overlayPixel strips showLeft)

/-- Whether a strip meets the background in a column that counts: one that is not clipped, and not
the last of the line. -/
def meetsBackground (s : Strip) (showLeft : Bool) (pixels : Vector UInt8 256) : Bool :=
  (List.range 8).any fun column =>
    let x := s.x + column
    if h : x < 255 then unclipped showLeft x && s.opaqueAt x && backgroundOpaque pixels[x]
    else false

end Ppu
end Famicom
