/-
# Boards

A board joins a cartridge's chips to the two address spaces of the machine.

| processor address | chip |
| --- | --- |
| `$4020`–`$5FFF` | none: reads give zero |
| `$6000`–`$7FFF` | program RAM, 8 KB |
| `$8000`–`$FFFF` | program ROM through two windows of 16 KB |

| picture address | chip |
| --- | --- |
| `$0000`–`$1FFF` | character ROM or RAM |
| `$2000`–`$3EFF` | nametable memory, through the mirroring |

The four boards differ in what stands in the windows.  NROM has fixed ones; a write to program
ROM picks the lower program window on UxROM and the character window on CNROM; MMC1 has
registers of its own.  Every offset is taken modulo the chip's size, so a register may name a
bank that is not there.
-/

import Famicom.Board.Mmc1
import Famicom.Cartridge.Image

namespace Famicom

/-- A kind of board with the state of its bank registers. -/
inductive Board.Wiring where
  | nrom
  | mmc1 (registers : Mmc1)
  | uxrom (prgBank : UInt8)
  | cnrom (chrBank : UInt8)
deriving DecidableEq, Repr

/-- A board with its chips. -/
structure Board where
  wiring : Board.Wiring
  /-- The number that the header gave. -/
  number : UInt8
  prg : Chip
  chr : Chip
  chrIsRam : Bool
  prgRam : Vector UInt8 8192
  nametables : Vector UInt8 4096
  /-- The mirroring that the header gave. -/
  wired : Mirroring

namespace Board

/-- The board with a given number, as it is at power-on. -/
def Wiring.ofNumber? (number : UInt8) : Option Wiring :=
  match number with
  | 0 => some .nrom
  | 1 => some (.mmc1 {})
  | 2 => some (.uxrom 0)
  | 3 => some (.cnrom 0)
  | _ => none

/-- The board that a cartridge asks for, with the cartridge in it. -/
def ofCartridge (c : Cartridge) : Except Cartridge.Fault Board :=
  match Wiring.ofNumber? c.header.board with
  | none => .error (.unsupportedBoard c.header.board)
  | some wiring =>
    .ok {
      wiring
      number := c.header.board
      prg := c.prg
      chr := c.chr
      chrIsRam := c.chrIsRam
      prgRam := Vector.replicate 8192 0
      nametables := Vector.replicate 4096 0
      wired := c.header.mirroring }

/-- The mirroring in force.  MMC1 sets its own, unless the cartridge has memory for four
screens. -/
@[inline] def mirroring (b : Board) : Mirroring :=
  match b.wiring with
  | .mmc1 m => if b.wired = .fourScreen then b.wired else m.mirroring
  | _ => b.wired

/-- One processor cycle passes. -/
@[inline] def tick (b : Board) : Board :=
  match b.wiring with
  | .mmc1 m => if m.lockout = 0 then b else { b with wiring := .mmc1 m.tick }
  | _ => b

/-- The number of 16 KB banks of program ROM. -/
@[inline] def prgBanks (b : Board) : Nat := b.prg.size / Cartridge.prgBankSize

/-- Whether the program RAM answers. -/
def prgRamEnabled (b : Board) : Bool :=
  match b.wiring with
  | .mmc1 m => m.prgRamEnabled
  | _ => true

/-- The cell of program ROM that an address of `$8000`–`$FFFF` selects, before it wraps. -/
def prgOffset (b : Board) (address : UInt16) : Nat :=
  let inWindow := address.toNat % Cartridge.prgBankSize
  match b.wiring with
  | .nrom | .cnrom _ => address.toNat % 0x8000
  | .mmc1 m => m.prgBankAt address b.prgBanks * Cartridge.prgBankSize + inWindow
  | .uxrom bank =>
    let bank := if address < 0xC000 then bank.toNat % b.prgBanks else b.prgBanks - 1
    bank * Cartridge.prgBankSize + inWindow

/-- The cell of character memory that an address of `$0000`–`$1FFF` selects, before it
wraps. -/
@[inline] def chrOffset (b : Board) (address : Nat) : Nat :=
  match b.wiring with
  | .nrom | .uxrom _ => address
  | .mmc1 m => m.chrOffset address
  | .cnrom bank => bank.toNat * Cartridge.chrBankSize + address

/-- What the processor reads at `address`. -/
def readCpu (b : Board) (address : UInt16) : UInt8 :=
  if address < 0x6000 then 0
  else if address < 0x8000 then
    if b.prgRamEnabled then b.prgRam[address.toNat % 8192] else 0
  else b.prg.read (b.prgOffset address)

/-- A write to program ROM: it reaches the bank registers. -/
def Wiring.write (w : Wiring) (address : UInt16) (value : UInt8) : Wiring :=
  match w with
  | .nrom => .nrom
  | .mmc1 m => .mmc1 (m.write address value)
  | .uxrom _ => .uxrom (value &&& 0x0F)
  | .cnrom _ => .cnrom (value &&& 0x03)

/-- The processor writes `value` at `address`. -/
def writeCpu (b : Board) (address : UInt16) (value : UInt8) : Board :=
  if address < 0x6000 then b
  else if address < 0x8000 then
    if b.prgRamEnabled then
      { b with prgRam := b.prgRam.set (address.toNat % 8192) value }
    else b
  else { b with wiring := b.wiring.write address value }

/-- What the picture unit reads at `address`.  Its address space has 14 bits. -/
@[inline] def readPpu (b : Board) (address : Nat) : UInt8 :=
  let address := address % 0x4000
  if address < 0x2000 then b.chr.read (b.chrOffset address)
  else
    have := b.mirroring.offset_lt address
    b.nametables[b.mirroring.offset address]

/-- The picture unit writes `value` at `address`. -/
def writePpu (b : Board) (address : Nat) (value : UInt8) : Board :=
  let address := address % 0x4000
  if address < 0x2000 then
    if b.chrIsRam then { b with chr := b.chr.write (b.chrOffset address) value } else b
  else
    { b with nametables :=
        b.nametables.set (b.mirroring.offset address) value (b.mirroring.offset_lt address) }

/-- What is reported of a write by the processor, if anything. -/
def notice? (b : Board) (address : UInt16) (value : UInt8) : Option Notice :=
  if address < 0x8000 then none
  else
    match b.wiring with
    | .nrom => none
    | .mmc1 m => m.notice? address value
    | .uxrom _ => some ⟨.debug, "UxROM PRG bank " ++ (value &&& 0x0F).toNat.repr⟩
    | .cnrom _ => some ⟨.debug, "CNROM CHR bank " ++ (value &&& 0x03).toNat.repr⟩

end Board
end Famicom
