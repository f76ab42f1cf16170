/-
# Control, mask and status

Three bytes of switches and flags.

| bit | control | mask | status |
| ---: | --- | --- | --- |
| 0 | nametable, horizontal | grayscale | |
| 1 | nametable, vertical | background in the left column | |
| 2 | address step of 32 | sprites in the left column | |
| 3 | sprites from `$1000` | background | |
| 4 | background from `$1000` | sprites | |
| 5 | tall sprites | | more than eight sprites |
| 6 | | | sprite 0 hit |
| 7 | NMI | | vertical blank |
-/

namespace Famicom
namespace Ppu

/-- The control register. -/
structure Control where
  bits : UInt8 := 0
deriving DecidableEq, Repr

namespace Control

/-- Whether the vertical blank requests an NMI. -/
@[inline] def nmiEnabled (c : Control) : Bool := c.bits &&& 0x80 != 0

/-- Whether sprites are two tiles high. -/
@[inline] def tallSprites (c : Control) : Bool := c.bits &&& 0x20 != 0

/-- The height of a sprite. -/
@[inline] def spriteHeight (c : Control) : Nat := if c.tallSprites then 16 else 8

/-- Where the patterns of the background are. -/
@[inline] def backgroundTable (c : Control) : Nat := if c.bits &&& 0x10 != 0 then 0x1000 else 0

/-- Where the patterns of small sprites are. -/
@[inline] def spriteTable (c : Control) : Nat := if c.bits &&& 0x08 != 0 then 0x1000 else 0

/-- How far the address goes on after an access to memory. -/
@[inline] def addressStep (c : Control) : Nat := if c.bits &&& 0x04 != 0 then 32 else 1

/-- The nametable that a picture starts in. -/
@[inline] def nametable (c : Control) : Nat := c.bits.toNat % 4

end Control

/-- The mask register. -/
structure Mask where
  bits : UInt8 := 0
deriving DecidableEq, Repr

namespace Mask

/-- Whether colours are gray. -/
@[inline] def grayscale (m : Mask) : Bool := m.bits &&& 0x01 != 0

/-- Whether the background is shown in the left eight columns. -/
@[inline] def backgroundLeft (m : Mask) : Bool := m.bits &&& 0x02 != 0

/-- Whether sprites are shown in the left eight columns. -/
@[inline] def spritesLeft (m : Mask) : Bool := m.bits &&& 0x04 != 0

/-- Whether the background is shown. -/
@[inline] def background (m : Mask) : Bool := m.bits &&& 0x08 != 0

/-- Whether sprites are shown. -/
@[inline] def sprites (m : Mask) : Bool := m.bits &&& 0x10 != 0

/-- Whether anything is shown. -/
@[inline] def rendering (m : Mask) : Bool := m.background || m.sprites

end Mask

/-- The status register. -/
structure Status where
  bits : UInt8 := 0
deriving DecidableEq, Repr

namespace Status

/-- Whether the picture is between two frames. -/
@[inline] def vblank (s : Status) : Bool := s.bits &&& 0x80 != 0

/-- Whether sprite 0 has met the background. -/
@[inline] def spriteZeroHit (s : Status) : Bool := s.bits &&& 0x40 != 0

/-- Whether a line had more than eight sprites. -/
@[inline] def spriteOverflow (s : Status) : Bool := s.bits &&& 0x20 != 0

/-- Raise the flag of the vertical blank. -/
def setVblank (s : Status) : Status := ⟨s.bits ||| 0x80⟩

/-- Lower the flag of the vertical blank. -/
def clearVblank (s : Status) : Status := ⟨s.bits &&& 0x7F⟩

/-- Raise the flag of sprite 0. -/
def setSpriteZeroHit (s : Status) : Status := ⟨s.bits ||| 0x40⟩

/-- Raise the flag of too many sprites. -/
def setSpriteOverflow (s : Status) : Status := ⟨s.bits ||| 0x20⟩

/-- Lower all three flags. -/
def clear (s : Status) : Status := ⟨s.bits &&& 0x1F⟩

end Status
end Ppu
end Famicom
