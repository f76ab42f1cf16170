/-
# Instructions

An instruction is an operation with an addressing mode, and 151 of the 256 opcodes stand for
one.  Its cost needs no table: it follows from the mode and from the kind of the operation.

| kind | cycles |
| --- | --- |
| load | those of the mode, and one more if indexing leaves the page |
| store | those of the mode, and the one for leaving the page always |
| shift or count | as a store, and two more; two for the accumulator |
| branch | two, and more if it is taken |
| internal | two |
-/

import Famicom.Cpu.Operation

namespace Famicom
namespace Cpu

/-- How an instruction finds its operand. -/
inductive AddressingMode where
  | implied
  | accumulator
  | immediate
  | zeroPage
  | zeroPageX
  | zeroPageY
  | absolute
  | absoluteX
  | absoluteY
  | indirect
  | indirectX
  | indirectY
  | relative
deriving DecidableEq, Repr

namespace AddressingMode

/-- The number of bytes behind the opcode. -/
def operandBytes : AddressingMode → UInt16
  | implied | accumulator => 0
  | absolute | absoluteX | absoluteY | indirect => 2
  | _ => 1

/-- The cycles of a load with this mode that stays in its page. -/
def accessCycles : AddressingMode → Nat
  | zeroPage => 3
  | zeroPageX | zeroPageY | absolute | absoluteX | absoluteY => 4
  | indirectY => 5
  | indirectX => 6
  | _ => 2

/-- No operand is found in less than two cycles. -/
theorem two_le_accessCycles (m : AddressingMode) : 2 ≤ m.accessCycles := by
  cases m <;> decide

/-- Whether an index is added to a whole address, so that it can leave the page. -/
def indexesAddress : AddressingMode → Bool
  | absoluteX | absoluteY | indirectY => true
  | _ => false

/-- The name of a mode. -/
def name : AddressingMode → String
  | implied => "Implied"
  | accumulator => "Accumulator"
  | immediate => "Immediate"
  | zeroPage => "ZeroPage"
  | zeroPageX => "ZeroPageX"
  | zeroPageY => "ZeroPageY"
  | absolute => "Absolute"
  | absoluteX => "AbsoluteX"
  | absoluteY => "AbsoluteY"
  | indirect => "Indirect"
  | indirectX => "IndirectX"
  | indirectY => "IndirectY"
  | relative => "Relative"

end AddressingMode

/-- An operation with the way to its operand. -/
structure Instruction where
  operation : Operation
  mode : AddressingMode
deriving DecidableEq, Repr

namespace Instruction

/-- The cycles of an instruction, without those for a page that is left and for a branch that is
taken. -/
def cycles (i : Instruction) : Nat :=
  match i.operation.effect with
  | .load _ => i.mode.accessCycles
  | .store _ => i.mode.accessCycles + i.mode.indexesAddress.toNat
  | .modify _ =>
    if i.mode = .accumulator then 2 else i.mode.accessCycles + i.mode.indexesAddress.toNat + 2
  | .branch _ | .internal _ => 2
  | .push _ => 3
  | .pull _ => 4
  | .jump => if i.mode = .indirect then 5 else 3
  | .call | .ret | .returnFromInterrupt => 6
  | .software => 7

/-- Every instruction takes time. -/
theorem two_le_cycles (i : Instruction) : 2 ≤ i.cycles := by
  have h := i.mode.two_le_accessCycles
  unfold cycles
  split
  · exact h
  · exact Nat.le_add_right_of_le h
  · split
    · exact Nat.le_refl 2
    · exact Nat.le_add_left 2 _
  · exact Nat.le_refl 2
  · exact Nat.le_refl 2
  · decide
  · decide
  · split <;> decide
  · decide
  · decide
  · decide
  · decide

/-- Whether leaving the page costs a cycle. -/
def paysForPage (i : Instruction) : Bool :=
  match i.operation.effect with
  | .load _ => i.mode.indexesAddress
  | _ => false

end Instruction

namespace Opcode

/-- An opcode that stands for nothing. -/
def no : Option Instruction := none

/-- No operand. -/
def imp (o : Operation) : Option Instruction := some ⟨o, .implied⟩

/-- The accumulator. -/
def acc (o : Operation) : Option Instruction := some ⟨o, .accumulator⟩

/-- The byte behind the opcode. -/
def imm (o : Operation) : Option Instruction := some ⟨o, .immediate⟩

/-- A cell of page zero. -/
def zp (o : Operation) : Option Instruction := some ⟨o, .zeroPage⟩

/-- A cell of page zero, X further on. -/
def zpx (o : Operation) : Option Instruction := some ⟨o, .zeroPageX⟩

/-- A cell of page zero, Y further on. -/
def zpy (o : Operation) : Option Instruction := some ⟨o, .zeroPageY⟩

/-- An address. -/
def abs (o : Operation) : Option Instruction := some ⟨o, .absolute⟩

/-- An address, X further on. -/
def abx (o : Operation) : Option Instruction := some ⟨o, .absoluteX⟩

/-- An address, Y further on. -/
def aby (o : Operation) : Option Instruction := some ⟨o, .absoluteY⟩

/-- An address kept at an address. -/
def ind (o : Operation) : Option Instruction := some ⟨o, .indirect⟩

/-- An address kept in page zero, X further on. -/
def inx (o : Operation) : Option Instruction := some ⟨o, .indirectX⟩

/-- An address kept in page zero, to which Y is added. -/
def iny (o : Operation) : Option Instruction := some ⟨o, .indirectY⟩

/-- A distance from the next instruction. -/
def rel (o : Operation) : Option Instruction := some ⟨o, .relative⟩

/-- The instruction set: a row for each upper digit of the opcode, a place for each lower one. -/
def rows : List (List (Option Instruction)) :=
  [
    [imp .brk, inx .ora, no      , no      , no      , zp .ora , zp .asl , no,
     imp .php, imm .ora, acc .asl, no      , no      , abs .ora, abs .asl, no],
    [rel .bpl, iny .ora, no      , no      , no      , zpx .ora, zpx .asl, no,
     imp .clc, aby .ora, no      , no      , no      , abx .ora, abx .asl, no],
    [abs .jsr, inx .and, no      , no      , zp .bit , zp .and , zp .rol , no,
     imp .plp, imm .and, acc .rol, no      , abs .bit, abs .and, abs .rol, no],
    [rel .bmi, iny .and, no      , no      , no      , zpx .and, zpx .rol, no,
     imp .sec, aby .and, no      , no      , no      , abx .and, abx .rol, no],
    [imp .rti, inx .eor, no      , no      , no      , zp .eor , zp .lsr , no,
     imp .pha, imm .eor, acc .lsr, no      , abs .jmp, abs .eor, abs .lsr, no],
    [rel .bvc, iny .eor, no      , no      , no      , zpx .eor, zpx .lsr, no,
     imp .cli, aby .eor, no      , no      , no      , abx .eor, abx .lsr, no],
    [imp .rts, inx .adc, no      , no      , no      , zp .adc , zp .ror , no,
     imp .pla, imm .adc, acc .ror, no      , ind .jmp, abs .adc, abs .ror, no],
    [rel .bvs, iny .adc, no      , no      , no      , zpx .adc, zpx .ror, no,
     imp .sei, aby .adc, no      , no      , no      , abx .adc, abx .ror, no],
    [no      , inx .sta, no      , no      , zp .sty , zp .sta , zp .stx , no,
     imp .dey, no      , imp .txa, no      , abs .sty, abs .sta, abs .stx, no],
    [rel .bcc, iny .sta, no      , no      , zpx .sty, zpx .sta, zpy .stx, no,
     imp .tya, aby .sta, imp .txs, no      , no      , abx .sta, no      , no],
    [imm .ldy, inx .lda, imm .ldx, no      , zp .ldy , zp .lda , zp .ldx , no,
     imp .tay, imm .lda, imp .tax, no      , abs .ldy, abs .lda, abs .ldx, no],
    [rel .bcs, iny .lda, no      , no      , zpx .ldy, zpx .lda, zpy .ldx, no,
     imp .clv, aby .lda, imp .tsx, no      , abx .ldy, abx .lda, aby .ldx, no],
    [imm .cpy, inx .cmp, no      , no      , zp .cpy , zp .cmp , zp .dec , no,
     imp .iny, imm .cmp, imp .dex, no      , abs .cpy, abs .cmp, abs .dec, no],
    [rel .bne, iny .cmp, no      , no      , no      , zpx .cmp, zpx .dec, no,
     imp .cld, aby .cmp, no      , no      , no      , abx .cmp, abx .dec, no],
    [imm .cpx, inx .sbc, no      , no      , zp .cpx , zp .sbc , zp .inc , no,
     imp .inx, imm .sbc, imp .nop, no      , abs .cpx, abs .sbc, abs .inc, no],
    [rel .beq, iny .sbc, no      , no      , no      , zpx .sbc, zpx .inc, no,
     imp .sed, aby .sbc, no      , no      , no      , abx .sbc, abx .inc, no]
  ]

/-- The instruction set in the order of the opcodes. -/
def table : Array (Option Instruction) := rows.flatten.toArray

end Opcode

/-- The instruction that an opcode stands for, if it stands for one. -/
def decode (opcode : UInt8) : Option Instruction := Opcode.table[opcode.toNat]?.join

end Cpu
end Famicom
