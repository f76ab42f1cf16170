/-
# The serial board

The MMC1 has one wire for data.  Each write to `$8000`–`$FFFF` delivers bit 0 of the value;
the fifth bit completes a group, and the group goes to the register that bits 13 and 14 of the
fifth address choose:

| address | register |
| --- | --- |
| `$8000`–`$9FFF` | control: bits 0–1 mirroring, 2–3 program mode, 4 character mode |
| `$A000`–`$BFFF` | first character bank |
| `$C000`–`$DFFF` | second character bank |
| `$E000`–`$FFFF` | program bank; bit 4 switches the program RAM off |

A write with bit 7 set throws the bits received so far away and sets both bits of the program
mode.  For three cycles after a group is complete the board does not listen.

The bits of an incomplete group are kept as a list, the first received in front, so that the
number of them is its length and their value its value in binary, lowest bit first.
-/

import Famicom.Cartridge.Mirroring
import Famicom.Hex
import Famicom.Notice

namespace Famicom

/-- The value of a list of bits, the lowest in front. -/
def bitsValue : List Bool → Nat
  | [] => 0
  | b :: bs => b.toNat + 2 * bitsValue bs

/-- So many bits make a number below the power of two. -/
theorem bitsValue_lt (bs : List Bool) : bitsValue bs < 1 <<< bs.length := by
  induction bs with
  | nil => simp [bitsValue]
  | cons b bs ih =>
    have : b.toNat ≤ 1 := by cases b <;> decide
    rw [bitsValue, List.length_cons, Nat.shiftLeft_succ]
    omega

/-- The registers of the serial board. -/
structure Mmc1 where
  /-- The bits of the group that is being received, the first in front. -/
  received : List Bool := []
  control : UInt8 := 0x0C
  chrBank0 : UInt8 := 0
  chrBank1 : UInt8 := 0
  prgBank : UInt8 := 0
  /-- The cycles for which writes are still ignored. -/
  lockout : Nat := 0
deriving DecidableEq, Repr

namespace Mmc1

/-- The number of cycles for which the board does not listen after a complete group. -/
def lockoutCycles : Nat := 3

/-- The number of bits in a group. -/
def groupSize : Nat := 5

/-- The four registers. -/
inductive Register where
  | control
  | chrBank0
  | chrBank1
  | prgBank
deriving DecidableEq, Repr

/-- The register that an address chooses: bits 13 and 14. -/
def Register.ofAddress (address : UInt16) : Register :=
  match address.toNat / 0x2000 % 4 with
  | 0 => .control
  | 1 => .chrBank0
  | 2 => .chrBank1
  | _ => .prgBank

/-- Put a value into a register. -/
def load (m : Mmc1) (r : Register) (v : UInt8) : Mmc1 :=
  match r with
  | .control => { m with control := v }
  | .chrBank0 => { m with chrBank0 := v }
  | .chrBank1 => { m with chrBank1 := v }
  | .prgBank => { m with prgBank := v }

/-- One cycle passes. -/
@[inline] def tick (m : Mmc1) : Mmc1 :=
  if m.lockout = 0 then m else { m with lockout := m.lockout - 1 }

/-- The bits received once `value` has been delivered. -/
def receive (m : Mmc1) (value : UInt8) : List Bool := m.received ++ [value &&& 0x01 != 0]

/-- A write to `$8000`–`$FFFF`. -/
def write (m : Mmc1) (address : UInt16) (value : UInt8) : Mmc1 :=
  if 0 < m.lockout then m
  else if value &&& 0x80 != 0 then
    { m with received := [], control := m.control ||| 0x0C }
  else
    let bits := m.receive value
    if bits.length < groupSize then
      { m with received := bits }
    else
      { m.load (.ofAddress address) (UInt8.ofNat (bitsValue bits)) with
        received := [], lockout := lockoutCycles }

/-- The mirroring that the control register asks for. -/
def mirroring (m : Mmc1) : Mirroring :=
  match m.control.toNat % 4 with
  | 0 => .lowerScreen
  | 1 => .upperScreen
  | 2 => .vertical
  | _ => .horizontal

/-- Whether the program RAM answers. -/
def prgRamEnabled (m : Mmc1) : Bool := m.prgBank &&& 0x10 == 0

/-- The 16 KB bank of program ROM that shows at `address`, of `banks` there are. -/
def prgBankAt (m : Mmc1) (address : UInt16) (banks : Nat) : Nat :=
  let bank := m.prgBank.toNat % 16
  let upper := 0xC000 ≤ address
  let selected :=
    match m.control.toNat / 4 % 4 with
    | 0 | 1 => bank / 2 * 2 + if upper then 1 else 0
    | 2 => if upper then bank else 0
    | _ => if upper then banks - 1 else bank
  selected % banks

/-- The cell of character memory that `address` selects: one window of 8 KB, or two of 4 KB. -/
def chrOffset (m : Mmc1) (address : Nat) : Nat :=
  if m.control &&& 0x10 == 0 then
    m.chrBank0.toNat / 2 * 2 % 32 * 0x1000 + address
  else if address < 0x1000 then
    m.chrBank0.toNat * 0x1000 + address % 0x1000
  else
    m.chrBank1.toNat * 0x1000 + address % 0x1000

/-- What is reported of a write that completes a group, if it does. -/
def notice? (m : Mmc1) (address : UInt16) (value : UInt8) : Option Notice :=
  if 0 < m.lockout || value &&& 0x80 != 0 || m.received.length + 1 < groupSize then none
  else
    some {
      level := .debug
      text := "MMC1 $" ++ Hex.word (address &&& 0xE000) ++ " <- " ++
        Hex.fiveBits (UInt8.ofNat (bitsValue (m.receive value))) ++
        " (control " ++ Hex.fiveBits (m.write address value).control ++ ")" }

/-- A cycle is one less to be deaf for. -/
theorem lockout_tick (m : Mmc1) : m.tick.lockout = m.lockout - 1 := by
  unfold tick; split <;> simp_all

end Mmc1
end Famicom
