/-
# What the processor sees of the picture unit

The processor reads and writes eight registers.

| register | write | read |
| ---: | --- | --- |
| 0 | control | latch |
| 1 | mask | latch |
| 2 | | status; lowers the vertical blank flag, clears the toggle |
| 3 | object address | latch |
| 4 | object memory, address goes on | object memory |
| 5 | scroll, twice | latch |
| 6 | address, twice | latch |
| 7 | memory, address goes on | memory, address goes on |

The latch is the byte last written to any of them.  A read of memory comes one read late, through a
buffer; palette memory answers at once, and the buffer gets what lies behind it.
-/

import Famicom.Ppu.Basic

namespace Famicom
namespace Ppu

/-- The address of memory: the low 14 bits of the place being fetched. -/
@[inline] def address (p : Ppu) : Nat := p.scroll.v % 0x4000

/-- Whether an address belongs to palette memory. -/
@[inline] def inPalette (address : Nat) : Bool := 0x3F00 ≤ address

/-- The address goes on. -/
def advanceAddress (p : Ppu) : Ppu :=
  { p with scroll := p.scroll.advance p.control.addressStep }

/-- Read the status. -/
def readStatus (p : Ppu) : UInt8 × Ppu :=
  (p.status.bits &&& 0xE0 ||| p.latch &&& 0x1F,
    { p with status := p.status.clearVblank, scroll := p.scroll.clearToggle })

/-- Read memory. -/
def readData (p : Ppu) (board : Board) : UInt8 × Ppu :=
  let address := p.address
  if inPalette address then
    (p.palette.read address,
      { p with readBuffer := board.readPpu (address - 0x1000) }.advanceAddress)
  else
    (p.readBuffer, { p with readBuffer := board.readPpu address }.advanceAddress)

/-- The byte of object memory at its address. -/
def readOam (p : Ppu) : UInt8 :=
  have := p.oamAddress.toNat_lt
  p.oam[p.oamAddress.toNat]

/-- Read a register. -/
def read (p : Ppu) (board : Board) (register : Nat) : UInt8 × Ppu :=
  match register with
  | 2 => p.readStatus
  | 4 => (p.readOam, p)
  | 7 => p.readData board
  | _ => (p.latch, p)

/-- Write a byte of object memory; the address goes on. -/
def writeOam (p : Ppu) (v : UInt8) : Ppu :=
  { p with
    oam := p.oam.set p.oamAddress.toNat v p.oamAddress.toNat_lt
    oamAddress := p.oamAddress + 1 }

/-- Write the control register.  Enabling the NMI during the vertical blank requests one. -/
def writeControl (p : Ppu) (v : UInt8) : Ppu :=
  let control : Control := ⟨v⟩
  { p with
    control
    scroll := p.scroll.setNametable control.nametable
    nmiPending := p.nmiPending ||
      (!p.control.nmiEnabled && control.nmiEnabled && p.status.vblank) }

/-- Write memory. -/
def writeData (p : Ppu) (board : Board) (v : UInt8) : Ppu × Board :=
  let address := p.address
  if inPalette address then
    ({ p with palette := p.palette.write address v }.advanceAddress, board)
  else
    (p.advanceAddress, board.writePpu address v)

/-- Write a register that does not reach the cartridge. -/
def writeOwn (p : Ppu) (register : Nat) (v : UInt8) : Ppu :=
  match register with
  | 0 => p.writeControl v
  | 1 => { p with mask := ⟨v⟩ }
  | 3 => { p with oamAddress := v }
  | 4 => p.writeOam v
  | 5 => { p with scroll := p.scroll.writeScroll v }
  | 6 => { p with scroll := p.scroll.writeAddress v }
  | _ => p

/-- Write a register. -/
def write (p : Ppu) (board : Board) (register : Nat) (v : UInt8) : Ppu × Board :=
  let p := { p with latch := v }
  if register = 7 then p.writeData board v else (p.writeOwn register v, board)

end Ppu
end Famicom
