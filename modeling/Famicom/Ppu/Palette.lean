/-
# Colours

The picture unit knows 64 colours and shows up to 32 of them at a time, the ones named by its
palette memory: eight palettes of four, four for the background and four for sprites.  Colour 0 of
a palette is never drawn, so the cells `$10`, `$14`, `$18` and `$1C` are not there: their
addresses select the cells of the background palettes.
-/

namespace Famicom
namespace Ppu

/-- The 64 colours, red, green and blue in a byte each. -/
def colours : Vector UInt32 64 := #v[
  0x7C7C7C, 0x0000FC, 0x0000BC, 0x4428BC, 0x940084, 0xA80020, 0xA81000, 0x881400,
  0x503000, 0x007800, 0x006800, 0x005800, 0x004058, 0x000000, 0x000000, 0x000000,
  0xBCBCBC, 0x0078F8, 0x0058F8, 0x6844FC, 0xD800CC, 0xE40058, 0xF83800, 0xE45C10,
  0xAC7C00, 0x00B800, 0x00A800, 0x00A844, 0x008888, 0x000000, 0x000000, 0x000000,
  0xF8F8F8, 0x3CBCFC, 0x6888FC, 0x9878F8, 0xF878F8, 0xF85898, 0xF87858, 0xFCA044,
  0xF8B800, 0xB8F818, 0x58D854, 0x58F898, 0x00E8D8, 0x787878, 0x000000, 0x000000,
  0xFCFCFC, 0xA4E4FC, 0xB8B8F8, 0xD8B8F8, 0xF8B8F8, 0xF8A4C0, 0xF0D0B0, 0xFCE0A8,
  0xF8D878, 0xD8F878, 0xB8F8B8, 0xB8F8D8, 0x00FCFC, 0xF8D8F8, 0x000000, 0x000000]

/-- The memory of the palettes. -/
structure Palette where
  cells : Vector UInt8 32 := Vector.replicate 32 0

namespace Palette

/-- The cell that an address selects. -/
@[inline] def cell (address : Nat) : Nat :=
  let i := address % 32
  if 16 ≤ i ∧ i % 4 = 0 then i - 16 else i

/-- There are 32 cells. -/
theorem cell_lt (address : Nat) : cell address < 32 := by
  simp only [cell]; split <;> omega

/-- Cell `$3F10` is not there: the backdrop is what its address selects. -/
example : cell 0x3F10 = 0 ∧ cell 0x3F15 = 0x15 := by decide

/-- The byte at an address. -/
@[inline] def read (p : Palette) (address : Nat) : UInt8 :=
  have := cell_lt address
  p.cells[cell address]

/-- Put a byte at an address.  A cell has six bits. -/
def write (p : Palette) (address : Nat) (v : UInt8) : Palette :=
  ⟨p.cells.set (cell address) (v &&& 0x3F) (cell_lt address)⟩

/-- The colour of a pixel whose palette address is given; in grayscale only the left column of the
colour table is shown. -/
@[inline] def colour (p : Palette) (grayscale : Bool) (pixel : UInt8) : UInt32 :=
  let shade := p.read pixel.toNat &&& if grayscale then 0x30 else 0x3F
  colours[shade.toNat % 64]

end Palette
end Ppu
end Famicom
