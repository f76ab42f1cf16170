/-
# The picture unit

The state of the picture unit.  What a dot does is in `Famicom.Ppu.Dot`, what the processor sees
of it in `Famicom.Ppu.Interface`.
-/

import Famicom.Ppu.Background
import Famicom.Ppu.Flags
import Famicom.Ppu.Palette
import Famicom.Ppu.Raster
import Famicom.Ppu.Sprite

namespace Famicom

/-- The picture unit. -/
structure Ppu where
  control : Ppu.Control := {}
  mask : Ppu.Mask := {}
  status : Ppu.Status := {}
  /-- The byte last written to a register: it stays on the lines. -/
  latch : UInt8 := 0
  oam : Vector UInt8 256 := Vector.replicate 256 0
  oamAddress : UInt8 := 0
  /-- The sprites of the line being drawn. -/
  lineSprites : Ppu.LineSprites := {}
  palette : Ppu.Palette := {}
  scroll : Ppu.Scroll := {}
  /-- The byte that the next read of memory gives. -/
  readBuffer : UInt8 := 0
  background : Ppu.Background := {}
  /-- The palette addresses of the line being drawn. -/
  line : Vector UInt8 256 := Vector.replicate 256 0
  frame : Vector (Vector UInt32 256) 240 := Vector.replicate 240 (Vector.replicate 256 0)
  raster : Ppu.Raster := {}
  /-- Whether the vertical blank has started since this was last taken note of. -/
  frameReady : Bool := false
  /-- Whether an NMI is requested. -/
  nmiPending : Bool := false

namespace Ppu

/-- Take a request for an NMI. -/
@[inline] def takeNmi (p : Ppu) : Bool × Ppu := (p.nmiPending, { p with nmiPending := false })

/-- Take note that a frame is ready. -/
def clearFrameReady (p : Ppu) : Ppu := { p with frameReady := false }

end Ppu
end Famicom
