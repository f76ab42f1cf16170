/-
# Operations

The 56 operations of the processor, sorted by what they do with their operand.  A load reads it
and changes registers, a store writes it and changes none, a shift or a count reads it and
writes it back; a branch looks at the flags, and an internal operation only at registers.  The
remaining ones move the program counter or use the stack.

Sorting them first makes the rest short: how an operation meets the bus
(`Famicom.Cpu.Execution`) and what it costs (`Famicom.Cpu.Instruction`) depend on its kind
alone.
-/

import Famicom.Cpu.Arithmetic
import Famicom.Cpu.Basic

namespace Famicom
namespace Cpu

/-- The operations, by their mnemonics. -/
inductive Operation where
  | adc | and | asl | bcc | bcs | beq | bit | bmi | bne | bpl | brk | bvc | bvs | clc | cld
  | cli | clv | cmp | cpx | cpy | dec | dex | dey | eor | inc | inx | iny | jmp | jsr | lda
  | ldx | ldy | lsr | nop | ora | pha | php | pla | plp | rol | ror | rti | rts | sbc | sec
  | sed | sei | sta | stx | sty | tax | tay | tsx | txa | txs | tya
deriving DecidableEq, Repr

/-- What an operation does. -/
inductive Effect where
  /-- Read the operand; the registers change by it.  The first argument says whether the
  processor obeys the D flag. -/
  | load (act : Bool → Registers → UInt8 → Registers)
  /-- Write a register into the operand. -/
  | store (value : Registers → UInt8)
  /-- Read the operand and write it back changed.  The carry goes in and comes out; Z and N
  follow from the result. -/
  | modify (act : Bool → UInt8 → Bool × UInt8)
  /-- Go to the operand if a flag says so. -/
  | branch (taken : Status → Bool)
  /-- Change registers only. -/
  | internal (act : Registers → Registers)
  /-- Push a byte. -/
  | push (value : Registers → UInt8)
  /-- Pull a byte; the registers change by it. -/
  | pull (act : Registers → UInt8 → Registers)
  /-- Go to the operand. -/
  | jump
  /-- Push the address of the last byte of this instruction and go to the operand. -/
  | call
  /-- Pull an address and go to the one after it. -/
  | ret
  /-- Pull the status and an address, and go there. -/
  | returnFromInterrupt
  /-- Enter the handler for interrupts, two bytes further on being the place to return to. -/
  | software

namespace Registers

/-- Put a value into the accumulator and let Z and N follow. -/
@[inline] def setA (r : Registers) (v : UInt8) : Registers :=
  { r with a := v, status := r.status.setZeroNegative v }

/-- Put a value into X and let Z and N follow. -/
@[inline] def setX (r : Registers) (v : UInt8) : Registers :=
  { r with x := v, status := r.status.setZeroNegative v }

/-- Put a value into Y and let Z and N follow. -/
@[inline] def setY (r : Registers) (v : UInt8) : Registers :=
  { r with y := v, status := r.status.setZeroNegative v }

/-- Take over what an addition or a subtraction gave. -/
def accept (r : Registers) (o : Arithmetic.Outcome) : Registers :=
  { r with
    a := o.value
    status := { r.status with
      carry := o.carry, overflow := o.overflow, negative := o.negative, zero := o.zero } }

/-- Add to the accumulator. -/
def add (decimalMode : Bool) (r : Registers) (v : UInt8) : Registers :=
  r.accept <|
    if decimalMode && r.status.decimal then Arithmetic.addDecimal r.a v r.status.carry
    else Arithmetic.add r.a v r.status.carry

/-- Subtract from the accumulator. -/
def subtract (decimalMode : Bool) (r : Registers) (v : UInt8) : Registers :=
  r.accept <|
    if decimalMode && r.status.decimal then Arithmetic.subtractDecimal r.a v r.status.carry
    else Arithmetic.subtract r.a v r.status.carry

/-- Compare a register with a byte: the carry says that the register is not the lesser. -/
def compare (register : UInt8) (r : Registers) (v : UInt8) : Registers :=
  { r with status := { r.status.setZeroNegative (register - v) with carry := v ≤ register } }

/-- Test a byte: Z for the bits it has in common with the accumulator, N and V from its two
highest bits. -/
def testBits (r : Registers) (v : UInt8) : Registers :=
  { r with status := { r.status with
      zero := r.a &&& v == 0, overflow := v &&& 0x40 != 0, negative := v &&& 0x80 != 0 } }

/-- Change the status. -/
@[inline] def mapStatus (f : Status → Status) (r : Registers) : Registers :=
  { r with status := f r.status }

end Registers

namespace Operation

/-- The effect of an operation. -/
def effect : Operation → Effect
  | lda => .load fun _ r v => r.setA v
  | ldx => .load fun _ r v => r.setX v
  | ldy => .load fun _ r v => r.setY v
  | adc => .load Registers.add
  | sbc => .load Registers.subtract
  | and => .load fun _ r v => r.setA (r.a &&& v)
  | ora => .load fun _ r v => r.setA (r.a ||| v)
  | eor => .load fun _ r v => r.setA (r.a ^^^ v)
  | bit => .load fun _ r v => r.testBits v
  | cmp => .load fun _ r v => r.compare r.a v
  | cpx => .load fun _ r v => r.compare r.x v
  | cpy => .load fun _ r v => r.compare r.y v
  | sta => .store fun r => r.a
  | stx => .store fun r => r.x
  | sty => .store fun r => r.y
  | asl => .modify fun _ v => (v &&& 0x80 != 0, v <<< 1)
  | lsr => .modify fun _ v => (v &&& 0x01 != 0, v >>> 1)
  | rol => .modify fun c v => (v &&& 0x80 != 0, v <<< 1 ||| if c then 0x01 else 0)
  | ror => .modify fun c v => (v &&& 0x01 != 0, v >>> 1 ||| if c then 0x80 else 0)
  | inc => .modify fun c v => (c, v + 1)
  | dec => .modify fun c v => (c, v - 1)
  | bcc => .branch fun s => !s.carry
  | bcs => .branch fun s => s.carry
  | bne => .branch fun s => !s.zero
  | beq => .branch fun s => s.zero
  | bpl => .branch fun s => !s.negative
  | bmi => .branch fun s => s.negative
  | bvc => .branch fun s => !s.overflow
  | bvs => .branch fun s => s.overflow
  | tax => .internal fun r => r.setX r.a
  | tay => .internal fun r => r.setY r.a
  | tsx => .internal fun r => r.setX r.sp
  | txa => .internal fun r => r.setA r.x
  | txs => .internal fun r => { r with sp := r.x }
  | tya => .internal fun r => r.setA r.y
  | inx => .internal fun r => r.setX (r.x + 1)
  | iny => .internal fun r => r.setY (r.y + 1)
  | dex => .internal fun r => r.setX (r.x - 1)
  | dey => .internal fun r => r.setY (r.y - 1)
  | clc => .internal (Registers.mapStatus fun s => { s with carry := false })
  | sec => .internal (Registers.mapStatus fun s => { s with carry := true })
  | cli => .internal (Registers.mapStatus fun s => { s with interrupt := false })
  | sei => .internal (Registers.mapStatus fun s => { s with interrupt := true })
  | cld => .internal (Registers.mapStatus fun s => { s with decimal := false })
  | sed => .internal (Registers.mapStatus fun s => { s with decimal := true })
  | clv => .internal (Registers.mapStatus fun s => { s with overflow := false })
  | nop => .internal id
  | pha => .push fun r => r.a
  | php => .push fun r => r.status.toStack true
  | pla => .pull fun r v => r.setA v
  | plp => .pull fun r v => { r with status := .ofByte v }
  | jmp => .jump
  | jsr => .call
  | rts => .ret
  | rti => .returnFromInterrupt
  | brk => .software

/-- The mnemonic of an operation. -/
def mnemonic : Operation → String
  | adc => "ADC"
  | and => "AND"
  | asl => "ASL"
  | bcc => "BCC"
  | bcs => "BCS"
  | beq => "BEQ"
  | bit => "BIT"
  | bmi => "BMI"
  | bne => "BNE"
  | bpl => "BPL"
  | brk => "BRK"
  | bvc => "BVC"
  | bvs => "BVS"
  | clc => "CLC"
  | cld => "CLD"
  | cli => "CLI"
  | clv => "CLV"
  | cmp => "CMP"
  | cpx => "CPX"
  | cpy => "CPY"
  | dec => "DEC"
  | dex => "DEX"
  | dey => "DEY"
  | eor => "EOR"
  | inc => "INC"
  | inx => "INX"
  | iny => "INY"
  | jmp => "JMP"
  | jsr => "JSR"
  | lda => "LDA"
  | ldx => "LDX"
  | ldy => "LDY"
  | lsr => "LSR"
  | nop => "NOP"
  | ora => "ORA"
  | pha => "PHA"
  | php => "PHP"
  | pla => "PLA"
  | plp => "PLP"
  | rol => "ROL"
  | ror => "ROR"
  | rti => "RTI"
  | rts => "RTS"
  | sbc => "SBC"
  | sec => "SEC"
  | sed => "SED"
  | sei => "SEI"
  | sta => "STA"
  | stx => "STX"
  | sty => "STY"
  | tax => "TAX"
  | tay => "TAY"
  | tsx => "TSX"
  | txa => "TXA"
  | txs => "TXS"
  | tya => "TYA"

end Operation
end Cpu
end Famicom
