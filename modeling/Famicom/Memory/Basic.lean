/-
# The address space

Everything that the processor reaches through its address lines.

| address | |
| --- | --- |
| `$0000`–`$1FFF` | 2 KB of memory, four times |
| `$2000`–`$3FFF` | the eight registers of the picture unit, over and over |
| `$4000`–`$4013` | registers of the sound unit |
| `$4014` | object memory transfer |
| `$4015` | sound status |
| `$4016` | controller |
| `$4017` | write: sound sequencer; read: the second controller, which is not there |
| `$4018`–`$401F` | nothing |
| `$4020`–`$FFFF` | cartridge |

Two things steal cycles from the processor: a transfer to object memory, and a byte read for the
delta modulation channel.  What they steal is written down in `pendingStall` and charged before
the processor's next cycle.
-/

import Famicom.Apu.Basic
import Famicom.Bus.Basic
import Famicom.Pad
import Famicom.Ppu.Dot
import Famicom.Ppu.Interface

namespace Famicom

/-- What is wired to the processor. -/
structure Memory where
  ram : Vector UInt8 2048 := Vector.replicate 2048 0
  ppu : Ppu := {}
  apu : Apu := {}
  board : Board
  pad : Pad := {}
  /-- The cycles stolen from the processor and not yet charged.  The count has no upper bound here,
  and 32 bits would do: all of it is charged in the next cycle, and unless the host writes between
  cycles the processor never waits for more than 600 (`Famicom.Proofs.Console.Debt`). -/
  pendingStall : Nat := 0

namespace Memory

/-- The cycles that a transfer to object memory takes. -/
def oamDmaCycles : Nat := 514

/-- The cycles that a byte for the delta modulation channel takes. -/
def sampleFetchCycles : Nat := 4

/-- The address space around a cartridge at power-on. -/
def ofBoard (board : Board) (sampleRate : Nat) : Memory := { board, apu := .ofRate sampleRate }

/-- Reset the chips.  Memory and cartridge keep what they hold. -/
def reset (m : Memory) : Memory :=
  { m with ppu := {}, apu := m.apu.reset, pad := {}, pendingStall := 0 }

/-- The register of the picture unit that an address of `$2000`–`$3FFF` selects. -/
@[inline] def ppuRegister (address : UInt16) : Nat := address.toNat % 8

/-- Read a byte. -/
def read (m : Memory) (address : UInt16) : UInt8 × Memory :=
  if address < 0x2000 then (m.ram[address.toNat % 2048], m)
  else if address < 0x4000 then
    let { ram, ppu, apu, board, pad, pendingStall } := m
    let (v, ppu) := ppu.read board (ppuRegister address)
    (v, { ram, ppu, apu, board, pad, pendingStall })
  else if address < 0x4020 then
    match address with
    | 0x4015 =>
      let (v, apu) := m.apu.readStatus
      (v, { m with apu })
    | 0x4016 =>
      let (v, pad) := m.pad.read
      (v, { m with pad })
    | 0x4017 => (Pad.openBus, m)
    | _ => (0, m)
  else (m.board.readCpu address, m)

/-- Copy the bytes at the given addresses into object memory. -/
def copyToOam (m : Memory) : List UInt16 → Memory
  | [] => m
  | address :: rest =>
    let (v, m) := m.read address
    copyToOam { m with ppu := m.ppu.writeOam v } rest

/-- The addresses of a page, in order. -/
def pageAddresses (page : UInt8) : List UInt16 :=
  (List.range 256).map fun i => Word.ofBytes (UInt8.ofNat i) page

/-- A page has 256 addresses. -/
theorem length_pageAddresses (page : UInt8) : (pageAddresses page).length = 256 := by
  rw [pageAddresses, List.length_map, List.length_range]

/-- Transfer a page to object memory. -/
def oamDma (m : Memory) (page : UInt8) : Memory :=
  let m := m.copyToOam (pageAddresses page)
  { m with pendingStall := m.pendingStall + oamDmaCycles }

/-- Write a byte. -/
def write (m : Memory) (address : UInt16) (v : UInt8) : Memory :=
  if address < 0x2000 then { m with ram := m.ram.set (address.toNat % 2048) v }
  else if address < 0x4000 then
    let { ram, ppu, apu, board, pad, pendingStall } := m
    let (ppu, board) := ppu.write board (ppuRegister address) v
    { ram, ppu, apu, board, pad, pendingStall }
  else if address < 0x4018 then
    match address with
    | 0x4014 => m.oamDma v
    | 0x4016 => { m with pad := m.pad.write v }
    | _ => { m with apu := m.apu.write address v }
  else if address < 0x4020 then m
  else { m with board := m.board.writeCpu address v }

instance : Bus Memory where
  read := read
  write := write
  irqLine m := m.apu.irqLine

/-- One dot of the picture unit. -/
@[inline] def tickPpu (m : Memory) : Memory :=
  let { ram, ppu, apu, board, pad, pendingStall } := m
  let ppu := ppu.tick board
  { ram, ppu, apu, board, pad, pendingStall }

/-- Read the byte that the delta modulation channel wants, if it wants one. -/
@[inline] def fetchSample (m : Memory) : Memory :=
  match m.apu.dmc.fetchAddress? with
  | none => m
  | some address =>
    let (v, m) := m.read address
    { m with apu := m.apu.fill v, pendingStall := m.pendingStall + sampleFetchCycles }

/-- One cycle of the sound unit. -/
@[inline] def tickApu (m : Memory) : Memory := { m with apu := m.apu.tick }.fetchSample

/-- One cycle of the cartridge. -/
@[inline] def tickBoard (m : Memory) : Memory := { m with board := m.board.tick }

/-- Take a request for an NMI. -/
@[inline] def takeNmi (m : Memory) : Bool × Memory :=
  if m.ppu.nmiPending then (true, { m with ppu := { m.ppu with nmiPending := false } })
  else (false, m)

/-- Take the stolen cycles. -/
@[inline] def takeStall (m : Memory) : Nat × Memory :=
  if m.pendingStall = 0 then (0, m) else (m.pendingStall, { m with pendingStall := 0 })

/-- Hold exactly the buttons of `b`. -/
def hold (m : Memory) (b : UInt8) : Memory := { m with pad := m.pad.hold b }

/-- Take note that a frame is ready. -/
def clearFrameReady (m : Memory) : Memory := { m with ppu := m.ppu.clearFrameReady }

/-- Drop the samples. -/
def clearSamples (m : Memory) : Memory := { m with apu := m.apu.clearSamples }

end Memory
end Famicom
