/-
# The processor status

Six flags, and their place in the byte that goes to the stack:

| bit | 7 | 6 | 5 | 4 | 3 | 2 | 1 | 0 |
| --- | - | - | - | - | - | - | - | - |
| flag | N | V | always 1 | B | D | I | Z | C |

B is no flag: it exists only in a pushed byte, where it tells `BRK` and `PHP` (set) from an
interrupt (clear).  So reading a byte drops bits 4 and 5 (`ofByte_toByte`), and every byte that
is written has bit 5 set.
-/

namespace Famicom
namespace Cpu

/-- The flags of the processor.  The initial value is the one after a reset: interrupts are
masked. -/
structure Status where
  carry : Bool := false
  zero : Bool := false
  interrupt : Bool := true
  decimal : Bool := false
  overflow : Bool := false
  negative : Bool := false
deriving DecidableEq, Repr

namespace Status

/-- The flags that a byte stands for. -/
def ofByte (b : UInt8) : Status where
  carry := b &&& 0x01 != 0
  zero := b &&& 0x02 != 0
  interrupt := b &&& 0x04 != 0
  decimal := b &&& 0x08 != 0
  overflow := b &&& 0x40 != 0
  negative := b &&& 0x80 != 0

/-- The flags as a byte, bit 5 set and bit 4 clear. -/
def toByte (s : Status) : UInt8 :=
  0x20 ||| (if s.carry then 0x01 else 0) ||| (if s.zero then 0x02 else 0) |||
    (if s.interrupt then 0x04 else 0) ||| (if s.decimal then 0x08 else 0) |||
    (if s.overflow then 0x40 else 0) ||| (if s.negative then 0x80 else 0)

/-- The byte that is pushed, with bit 4 as given. -/
def toStack (s : Status) (brk : Bool) : UInt8 :=
  if brk then s.toByte ||| 0x10 else s.toByte

/-- Set Z and N by a result. -/
@[inline] def setZeroNegative (s : Status) (v : UInt8) : Status :=
  { s with zero := v == 0, negative := v &&& 0x80 != 0 }

/-- The flags as text. -/
def render (s : Status) : String :=
  "C:" ++ s.carry.toNat.repr ++ " Z:" ++ s.zero.toNat.repr ++ " I:" ++ s.interrupt.toNat.repr ++
    " D:" ++ s.decimal.toNat.repr ++ " V:" ++ s.overflow.toNat.repr ++
    " N:" ++ s.negative.toNat.repr

/-- No flag is lost on the stack. -/
theorem ofByte_toByte (s : Status) : ofByte s.toByte = s := by
  obtain ⟨c, z, i, d, v, n⟩ := s
  revert c z i d v n
  decide

/-- A byte from the stack gives the flags that were pushed, whatever stands in bit 4. -/
theorem ofByte_toStack (s : Status) (brk : Bool) : ofByte (s.toStack brk) = s := by
  obtain ⟨c, z, i, d, v, n⟩ := s
  revert c z i d v n brk
  decide

/-- Of a byte with all bits set the six flags are kept; `PHP` sets bit 4 and an interrupt does
not. -/
example : (ofByte 0xFF).toStack false = 0xEF ∧ (ofByte 0xFF).toStack true = 0xFF := by decide

end Status
end Cpu
end Famicom
