/-
# One dot

What happens in a dot hangs on its line and its place there.

| line | dot | |
| --- | --- | --- |
| visible | 1 | the line's sprites are looked for |
| visible, last | 2–257, 321–337 | background: shift, fetch, a tile to the right every eight dots |
| visible, last | 256 | a row down |
| visible, last | 257 | back to the first column |
| last | 280–304 | back to the first row |
| visible | 1–256 | a pixel of background |
| visible | 256 | sprites over it; the line goes to the screen |
| 241 | 1 | vertical blank |
| last | 1 | flags down |

The rows that concern the background hold only while something is rendered.
-/

import Famicom.Ppu.Basic

namespace Famicom
namespace Ppu

/-- Look for the sprites of this line. -/
def evaluateSprites (p : Ppu) : Ppu :=
  if p.mask.rendering then
    let lineSprites := evaluate p.oam p.control.spriteHeight p.raster.line
    { p with
      lineSprites
      status := if lineSprites.overflow then p.status.setSpriteOverflow else p.status }
  else { p with lineSprites := {} }

/-- Whether the background is shifted and fetched in a dot. -/
@[inline] def fetchesIn (dot : Nat) : Bool :=
  (2 ≤ dot && dot ≤ 257) || (321 ≤ dot && dot ≤ 337)

/-- Shift the background and do the fetch that falls on this dot; the eighth dot of a group goes a
tile to the right. -/
@[inline] def fetchBackground (p : Ppu) (board : Board) : Ppu :=
  let phase := (p.raster.dot - 1) % 8
  let background := if p.mask.background then p.background.shift else p.background
  if phase = 7 then
    { p with background, scroll := p.scroll.stepRight }
  else
    { p with
      background := background.fetch board p.control.backgroundTable p.scroll.v phase }

/-- What the background does in this dot. -/
@[inline] def backgroundDot (p : Ppu) (board : Board) : Ppu :=
  let dot := p.raster.dot
  let p := if fetchesIn dot then p.fetchBackground board else p
  if dot = 256 then { p with scroll := p.scroll.stepDown }
  else if dot = 257 then
    { p with background := p.background.load, scroll := p.scroll.returnColumn }
  else if p.raster.line = preRenderLine ∧ 280 ≤ dot ∧ dot ≤ 304 then
    { p with scroll := p.scroll.returnRow }
  else p

/-- The background pixel of column `x`. -/
@[inline] def backgroundPixel (p : Ppu) (x : Nat) : UInt8 :=
  if p.mask.background && unclipped p.mask.backgroundLeft x then
    p.background.pixel p.scroll.fineX
  else 0

/-- The strips of this line's sprites. -/
def strips (p : Ppu) (board : Board) : List Strip :=
  p.lineSprites.sprites.map fun s =>
    s.strip board p.lineSprites.height p.control.spriteTable p.raster.line

/-- Whether sprite 0 meets the background in this line. -/
def hitsSpriteZero (p : Ppu) (strips : List Strip) : Bool :=
  p.lineSprites.zero && p.mask.background &&
    match strips with
    | [] => false
    | s :: _ => meetsBackground s p.mask.spritesLeft p.line

/-- Lay this line's sprites over its background. -/
def drawSprites (p : Ppu) (board : Board) : Ppu :=
  let strips := p.strips board
  let hit := p.hitsSpriteZero strips
  let showLeft := p.mask.spritesLeft
  { p with
    status := if hit then p.status.setSpriteZeroHit else p.status
    line := overlay strips showLeft p.line }

/-- The colours of the line that has been drawn. -/
def lineColours (p : Ppu) : Vector UInt32 256 := p.line.map (p.palette.colour p.mask.grayscale)

/-- Put the line that has been drawn on the screen. -/
def showLine (p : Ppu) : Ppu :=
  if h : p.raster.line < 240 then
    let colours := p.lineColours
    { p with frame := p.frame.set p.raster.line colours }
  else p

/-- A dot of a visible line. -/
@[inline] def visibleDot (p : Ppu) (board : Board) : Ppu :=
  let dot := p.raster.dot
  let p := if dot = 1 then p.evaluateSprites else p
  let p := if p.mask.rendering then p.backgroundDot board else p
  if h : 1 ≤ dot ∧ dot ≤ 256 then
    let pixel := p.backgroundPixel (dot - 1)
    let p := { p with line := p.line.set (dot - 1) pixel }
    if dot = 256 then
      (if p.mask.sprites then p.drawSprites board else p).showLine
    else p
  else p

/-- A dot of the last line. -/
@[inline] def preRenderDot (p : Ppu) (board : Board) : Ppu :=
  let p := if p.raster.dot = 1 then { p with status := p.status.clear } else p
  if p.mask.rendering then p.backgroundDot board else p

/-- The vertical blank starts. -/
def startVblank (p : Ppu) : Ppu :=
  { p with
    status := p.status.setVblank
    frameReady := true
    nmiPending := p.nmiPending || p.control.nmiEnabled }

/-- What this dot does, apart from going on to the next. -/
@[inline] def draw (p : Ppu) (board : Board) : Ppu :=
  if p.raster.line < visibleLines then p.visibleDot board
  else if p.raster.line = preRenderLine then p.preRenderDot board
  else if p.raster.line = vblankLine ∧ p.raster.dot = 1 then p.startVblank
  else p

/-- One dot. -/
def tick (p : Ppu) (board : Board) : Ppu :=
  let p := p.draw board
  { p with raster := p.raster.advance p.mask.rendering }

end Ppu
end Famicom
