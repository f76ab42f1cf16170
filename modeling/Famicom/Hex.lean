/-
# Numerals of fixed width

Addresses and bytes are written in capital hexadecimal with all their leading
zeros, serial registers in binary.
-/

import Famicom.Word

namespace Famicom
namespace Hex

/-- The hexadecimal digit of `n`, for `n < 16`. -/
def digit (n : Nat) : Char := if n < 10 then Char.ofNat (48 + n) else Char.ofNat (55 + n)

/-- A byte as two hexadecimal digits. -/
def byte (b : UInt8) : String := String.ofList [digit (b.toNat / 16), digit (b.toNat % 16)]

/-- A word as four hexadecimal digits. -/
def word (w : UInt16) : String := byte (Word.high w) ++ byte (Word.low w)

/-- The low five bits of a byte as binary digits, highest first. -/
def fiveBits (b : UInt8) : String :=
  String.ofList ([4, 3, 2, 1, 0].map fun i => digit (b.toNat.testBit i).toNat)

/-- The leading zeros stay. -/
example : word 0x0C5 = "00C5" ∧ fiveBits 0x0C = "01100" := by decide

end Hex
end Famicom
