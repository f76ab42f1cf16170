/-
# What an instruction touches

Beside what an instruction computes it is worth knowing what it leaves alone.  The way to its
operand is given by the addressing mode (`AddressingMode.Finds`): the bytes behind the opcode that
it reads, the pointer that it reads, and the operand.  The rest is given by the mnemonic:

| operation | reads | writes | moves the stack pointer by |
| --- | --- | --- | --- |
| loads, comparisons, arithmetic | operand | | |
| `STA` `STX` `STY` | | operand | |
| shifts, `INC` `DEC` | operand | operand | |
| branches | operand, if taken | | |
| `PHA` `PHP` | | one cell of the stack | -1 |
| `PLA` `PLP` | one cell of the stack | | +1 |
| `JSR` | | two cells of the stack | -2 |
| `RTS` | two cells of the stack | | +2 |
| `RTI` | three cells of the stack | | +3 |
| `BRK` | the vector | three cells of the stack | -3 |

`Cpu.step_footprint` says that no instruction touches more.
-/

import Famicom.Proofs.Bus.Recording

namespace Famicom
namespace Cpu

open Bus (Access Recorded)

/-- The cells of memory that an operand occupies. -/
def Operand.cells : Operand → List UInt16
  | none | accumulator => []
  | memory address => [address]

/-- How a mode finds its operand when the bytes behind the opcode begin at `pc`: the reads of these
bytes, the reads of a pointer, and the operand. -/
inductive AddressingMode.Finds (pc : UInt16) (x y : UInt8) :
    AddressingMode → List Access → List Access → Operand → Prop where
  | implied : Finds pc x y .implied [] [] .none
  | accumulator : Finds pc x y .accumulator [] [] .accumulator
  | immediate : Finds pc x y .immediate [] [] (.memory pc)
  | relative : Finds pc x y .relative [] [] (.memory pc)
  | zeroPage (b : UInt8) : Finds pc x y .zeroPage [.read pc b] [] (.memory b.toUInt16)
  | zeroPageX (b : UInt8) : Finds pc x y .zeroPageX [.read pc b] [] (.memory (b + x).toUInt16)
  | zeroPageY (b : UInt8) : Finds pc x y .zeroPageY [.read pc b] [] (.memory (b + y).toUInt16)
  | absolute (low high : UInt8) :
    Finds pc x y .absolute [.read pc low, .read (pc + 1) high] [] (.memory (Word.ofBytes low high))
  | absoluteX (low high : UInt8) :
    Finds pc x y .absoluteX [.read pc low, .read (pc + 1) high] []
      (.memory (Word.ofBytes low high + x.toUInt16))
  | absoluteY (low high : UInt8) :
    Finds pc x y .absoluteY [.read pc low, .read (pc + 1) high] []
      (.memory (Word.ofBytes low high + y.toUInt16))
  | indirect (low high l h : UInt8) :
    Finds pc x y .indirect [.read pc low, .read (pc + 1) high]
      [.read (Word.ofBytes low high) l, .read (nextInPage (Word.ofBytes low high)) h]
      (.memory (Word.ofBytes l h))
  | indirectX (b l h : UInt8) :
    Finds pc x y .indirectX [.read pc b]
      [.read (b + x).toUInt16 l, .read (b + x + 1).toUInt16 h] (.memory (Word.ofBytes l h))
  | indirectY (b l h : UInt8) :
    Finds pc x y .indirectY [.read pc b] [.read b.toUInt16 l, .read (b + 1).toUInt16 h]
      (.memory (Word.ofBytes l h + y.toUInt16))

namespace Operation

/-! ### What an operation is meant to do

These tables are written from the instruction set and not from the execution: which operations
write, read, push and pull, and which flags they are about. -/

/-- Whether an operation changes its operand. -/
def changesOperand : Operation → Bool
  | sta | stx | sty | asl | lsr | rol | ror | inc | dec => true
  | _ => false

/-- Whether an operation is a branch that is taken. -/
def branches (s : Status) : Operation → Bool
  | bcc => !s.carry
  | bcs => s.carry
  | bne => !s.zero
  | beq => s.zero
  | bpl => !s.negative
  | bmi => s.negative
  | bvc => !s.overflow
  | bvs => s.overflow
  | _ => false

/-- Whether an operation goes elsewhere than to the next instruction. -/
def redirects (s : Status) : Operation → Bool
  | jmp | jsr | rts | rti | brk => true
  | o => o.branches s

/-- The cells that an operation writes. -/
def writes (operand : Operand) (sp : UInt8) : Operation → List UInt16
  | pha | php => [stackCell sp]
  | jsr => [stackCell sp, stackCell (sp - 1)]
  | brk => [stackCell sp, stackCell (sp - 1), stackCell (sp - 2)]
  | o => if o.changesOperand then operand.cells else []

/-- The cells that an operation reads when its operand has been found. -/
def reads (operand : Operand) (r : Registers) : Operation → List UInt16
  | pla | plp => [stackCell (r.sp + 1)]
  | rts => [stackCell (r.sp + 1), stackCell (r.sp + 2)]
  | rti => [stackCell (r.sp + 1), stackCell (r.sp + 2), stackCell (r.sp + 3)]
  | brk => [irqVector, irqVector + 1]
  | adc | and | bit | cmp | cpx | cpy | eor | lda | ldx | ldy | ora | sbc | asl | lsr | rol | ror
  | inc | dec => operand.cells
  | o => if o.branches r.status then operand.cells else []

/-- The bytes that an operation pushes. -/
def pushes : Operation → UInt8
  | pha | php => 1
  | jsr => 2
  | brk => 3
  | _ => 0

/-- The bytes that an operation pulls. -/
def pulls : Operation → UInt8
  | pla | plp => 1
  | rts => 2
  | rti => 3
  | _ => 0

/-- The stack pointer after an operation. -/
def stackPointer (r : Registers) : Operation → UInt8
  | txs => r.x
  | o => r.sp - o.pushes + o.pulls

/-- The operations that change the I flag. -/
def masks : List Operation := [cli, sei, plp, rti, brk]

/-- The operations that change the D flag. -/
def setsDecimal : List Operation := [cld, sed, plp, rti]

/-- What an operation may do to the registers and on the bus. -/
structure Works (o : Operation) (operand : Operand) (r r' : Registers) (made : List Access) :
    Prop where
  writes : made.filterMap Access.writtenAt = o.writes operand r.sp
  reads : made.filterMap Access.readAt = o.reads operand r
  pc : o.redirects r.status = false → r'.pc = r.pc
  sp : r'.sp = o.stackPointer r
  interrupt : o ∉ masks → r'.status.interrupt = r.status.interrupt
  decimal : o ∉ setsDecimal → r'.status.decimal = r.status.decimal

/-- The program counter, the stack pointer, I and D stay as they are. -/
structure Steady (r r' : Registers) : Prop where
  pc : r'.pc = r.pc
  sp : r'.sp = r.sp
  interrupt : r'.status.interrupt = r.status.interrupt
  decimal : r'.status.decimal = r.status.decimal

/-- An operation that leaves the registers of the path alone has to be checked for its accesses and
the stack pointer only. -/
theorem Works.of_steady {o : Operation} {operand : Operand} {r r' : Registers} {made : List Access}
    (h : Steady r r') (hs : o.stackPointer r = r.sp)
    (hw : made.filterMap Access.writtenAt = o.writes operand r.sp)
    (hr : made.filterMap Access.readAt = o.reads operand r) : o.Works operand r r' made where
  writes := hw
  reads := hr
  pc _ := h.pc
  sp := h.sp.trans hs.symm
  interrupt _ := h.interrupt
  decimal _ := h.decimal

end Operation

/-! ### Mode by mode, operation by operation -/

variable {β : Type} [Bus β]

/-- **A mode finds its operand** by the reads that belong to it. -/
theorem locate_finds (mode : AddressingMode) (pc : UInt16) (x y : UInt8) (b : Recorded β) :
    ∃ fetched pointed,
      (mode.locate pc x y b).2.accesses = pointed.reverse ++ (fetched.reverse ++ b.accesses) ∧
        mode.Finds pc x y fetched pointed (mode.locate pc x y b).1.operand := by
  cases mode with
  | implied => exact ⟨_, _, rfl, .implied⟩
  | accumulator => exact ⟨_, _, rfl, .accumulator⟩
  | immediate => exact ⟨_, _, rfl, .immediate⟩
  | relative => exact ⟨_, _, rfl, .relative⟩
  | zeroPage => exact ⟨_, _, rfl, .zeroPage _⟩
  | zeroPageX => exact ⟨_, _, rfl, .zeroPageX _⟩
  | zeroPageY => exact ⟨_, _, rfl, .zeroPageY _⟩
  | absolute => exact ⟨_, _, rfl, .absolute _ _⟩
  | absoluteX => exact ⟨_, _, rfl, .absoluteX _ _⟩
  | absoluteY => exact ⟨_, _, rfl, .absoluteY _ _⟩
  | indirect => exact ⟨_, _, rfl, .indirect _ _ _ _⟩
  | indirectX => exact ⟨_, _, rfl, .indirectX _ _ _⟩
  | indirectY => exact ⟨_, _, rfl, .indirectY _ _ _⟩

/-- **An operation touches nothing else** than what its mnemonic promises. -/
theorem execute_works (o : Operation) (decimalMode : Bool) (operand : Operand) (r : Registers)
    (hjsr : o = .jsr → ∃ a, operand = .memory a) (b : Recorded β) :
    ∃ made, (o.execute decimalMode operand r b).2.2.accesses = made.reverse ++ b.accesses ∧
      o.Works operand r (o.execute decimalMode operand r b).2.1 made := by
  -- a mnemonic has its pushes and its pulls, and most have none
  have kept (s : UInt8) : s - 0 + 0 = s := by rw [UInt8.sub_zero, UInt8.add_zero]
  have pushed (s n : UInt8) : s - n = s - n + 0 := (UInt8.add_zero _).symm
  have pulled (s n : UInt8) : s + n = s - 0 + n := by rw [UInt8.sub_zero]
  have two_up (s : UInt8) : s + 1 + 1 = s + 2 := by grind
  have three_up (s : UInt8) : s + 1 + 1 + 1 = s + 3 := by grind
  have two_down (s : UInt8) : s - 1 - 1 = s - 2 := by grind
  have three_down (s : UInt8) : s - 1 - 1 - 1 = s - 3 := by grind
  cases o with
  | adc | and | bit | cmp | cpx | cpy | eor | lda | ldx | ldy | ora | sbc =>
    cases operand with
    | none | accumulator => exact ⟨[], rfl, .of_steady ⟨rfl, rfl, rfl, rfl⟩ (kept _) rfl rfl⟩
    | memory a => exact ⟨[.read a _], rfl, .of_steady ⟨rfl, rfl, rfl, rfl⟩ (kept _) rfl rfl⟩
  | sta | stx | sty =>
    cases operand with
    | none | accumulator => exact ⟨[], rfl, .of_steady ⟨rfl, rfl, rfl, rfl⟩ (kept _) rfl rfl⟩
    | memory a => exact ⟨[.write a _], rfl, .of_steady ⟨rfl, rfl, rfl, rfl⟩ (kept _) rfl rfl⟩
  | asl | lsr | rol | ror | inc | dec =>
    cases operand with
    | none | accumulator => exact ⟨[], rfl, .of_steady ⟨rfl, rfl, rfl, rfl⟩ (kept _) rfl rfl⟩
    | memory a =>
      exact ⟨[.read a _, .write a _], rfl, .of_steady ⟨rfl, rfl, rfl, rfl⟩ (kept _) rfl rfl⟩
  | bcc | bcs | bne | beq | bpl | bmi | bvc | bvs =>
    simp only [Operation.execute, Operation.effect]
    split
    · next ht =>
      have taken {P : Prop} (hf : _ = false) : P := absurd (ht.symm.trans hf) Bool.noConfusion
      cases operand with
      | none | accumulator =>
        exact ⟨[], rfl, rfl, (if_pos ht).symm, taken, (kept _).symm, fun _ => rfl, fun _ => rfl⟩
      | memory a =>
        exact ⟨[.read a _], rfl, rfl, (if_pos ht).symm, taken, (kept _).symm, fun _ => rfl,
          fun _ => rfl⟩
    · next ht =>
      exact ⟨[], rfl, .of_steady ⟨rfl, rfl, rfl, rfl⟩ (kept _) rfl (if_neg ht).symm⟩
  | tax | tay | tsx | txa | tya | inx | iny | dex | dey | clc | sec | clv | nop =>
    exact ⟨[], rfl, .of_steady ⟨rfl, rfl, rfl, rfl⟩ (kept _) rfl rfl⟩
  | txs => exact ⟨[], rfl, rfl, rfl, fun _ => rfl, rfl, fun _ => rfl, fun _ => rfl⟩
  | cli | sei =>
    exact ⟨[], rfl, rfl, rfl, fun _ => rfl, (kept _).symm, fun h => absurd (by decide) h,
      fun _ => rfl⟩
  | cld | sed =>
    exact ⟨[], rfl, rfl, rfl, fun _ => rfl, (kept _).symm, fun _ => rfl,
      fun h => absurd (by decide) h⟩
  | pha | php =>
    exact ⟨[.write _ _], rfl, rfl, rfl, fun _ => rfl, pushed _ _, fun _ => rfl, fun _ => rfl⟩
  | pla => exact ⟨[.read _ _], rfl, rfl, rfl, fun _ => rfl, pulled _ _, fun _ => rfl, fun _ => rfl⟩
  | plp =>
    exact ⟨[.read _ _], rfl, rfl, rfl, fun _ => rfl, pulled _ _, fun h => absurd (by decide) h,
      fun h => absurd (by decide) h⟩
  | jmp =>
    cases operand <;>
      exact ⟨[], rfl, rfl, rfl, nofun, (kept _).symm, fun _ => rfl, fun _ => rfl⟩
  | jsr =>
    obtain ⟨a, rfl⟩ := hjsr rfl
    refine ⟨[.write _ _, .write _ _], rfl, rfl, rfl, nofun, ?_, fun _ => rfl, fun _ => rfl⟩
    exact (two_down r.sp).trans (pushed _ _)
  | rts =>
    refine ⟨[.read _ _, .read _ _], rfl, rfl, ?_, nofun, ?_, fun _ => rfl, fun _ => rfl⟩
    · exact congrArg (fun sp => [stackCell (r.sp + 1), stackCell sp]) (two_up r.sp)
    · exact (two_up r.sp).trans (pulled _ _)
  | rti =>
    refine ⟨[.read _ _, .read _ _, .read _ _], rfl, rfl, ?_, nofun, ?_,
      fun h => absurd (by decide) h, fun h => absurd (by decide) h⟩
    · show [stackCell (r.sp + 1), stackCell (r.sp + 1 + 1), stackCell (r.sp + 1 + 1 + 1)] = _
      rw [three_up, two_up]
      rfl
    · exact (three_up r.sp).trans (pulled _ _)
  | brk =>
    refine ⟨[.write _ _, .write _ _, .write _ _, .read _ _, .read _ _], rfl, ?_, rfl, nofun, ?_,
      fun h => absurd (by decide) h, fun _ => rfl⟩
    · exact congrArg (fun sp => [stackCell r.sp, stackCell (r.sp - 1), stackCell sp])
        (two_down r.sp)
    · exact (three_down r.sp).trans (pushed _ _)

section Modes

variable {mode : AddressingMode} {pc : UInt16} {x y : UInt8} {fetched pointed : List Access}
  {operand : Operand}

/-- On the way to an operand nothing is written. -/
theorem AddressingMode.Finds.writes_nothing (h : mode.Finds pc x y fetched pointed operand) :
    (fetched ++ pointed).filterMap Access.writtenAt = [] := by
  cases h <;> rfl

/-- An operand that is not the accumulator is in memory. -/
theorem AddressingMode.Finds.operand_memory (h : mode.Finds pc x y fetched pointed operand)
    (hi : mode ≠ .implied) (ha : mode ≠ .accumulator) : ∃ a, operand = .memory a := by
  cases h with
  | implied => exact absurd rfl hi
  | accumulator => exact absurd rfl ha
  | _ => exact ⟨_, rfl⟩

/-- The accumulator is the operand where the mode says so. -/
theorem AddressingMode.Finds.operand_accumulator (h : mode.Finds pc x y fetched pointed operand)
    (hm : mode = .accumulator) : operand = .accumulator := by
  cases h with
  | accumulator => rfl
  | _ => cases hm

/-- A byte as an address is in page zero. -/
theorem toUInt16_lt_page (b : UInt8) : b.toUInt16 < 0x100 := by
  rw [UInt16.lt_iff_toNat_lt, UInt8.toNat_toUInt16]
  exact b.toNat_lt

/-- The modes of page zero stay there. -/
theorem AddressingMode.Finds.zero_page (h : mode.Finds pc x y fetched pointed operand)
    (hm : mode ∈ [.zeroPage, .zeroPageX, .zeroPageY]) : ∀ a ∈ operand.cells, a < 0x100 := by
  cases h with
  | zeroPage | zeroPageX | zeroPageY =>
    intro a ha
    obtain rfl := List.mem_singleton.1 ha
    exact toUInt16_lt_page _
  | _ => simp at hm

/-- A pointer in page zero is read there, its second byte too. -/
theorem AddressingMode.Finds.zero_page_pointer (h : mode.Finds pc x y fetched pointed operand)
    (hm : mode ∈ [.indirectX, .indirectY]) :
    ∀ a ∈ pointed.filterMap Access.readAt, a < 0x100 := by
  cases h with
  | indirectX | indirectY =>
    intro a ha
    obtain rfl | ha := List.mem_cons.1 ha
    · exact toUInt16_lt_page _
    · obtain rfl := List.mem_singleton.1 ha
      exact toUInt16_lt_page _
  | _ => simp at hm

/-- The byte behind a pointer is looked for in the same page. -/
theorem leavesPage_nextInPage (p : UInt16) : leavesPage p (nextInPage p) = false := by
  have h : nextInPage p &&& 0xFF00 = p &&& 0xFF00 := by
    apply UInt16.toNat_inj.1
    simp only [nextInPage, UInt16.toNat_and, UInt16.toNat_or, Nat.and_or_distrib_right,
      Nat.and_assoc]
    show p.toNat &&& 0xFF00 ||| (p + 1).toNat &&& 0 = p.toNat &&& 0xFF00
    rw [Nat.and_zero, Nat.or_zero]
  rw [leavesPage, h, bne_self_eq_false]

/-- Behind the last byte of a page a pointer goes on with the first. -/
example : nextInPage 0x10FF = 0x1000 ∧ nextInPage 0x10FE = 0x10FF := by decide

/-- The pointer of an indirect jump is read in one page. -/
theorem AddressingMode.Finds.pointer_page (h : mode.Finds pc x y fetched pointed operand)
    (hm : mode = .indirect) :
    ∃ p q, pointed.filterMap Access.readAt = [p, q] ∧ leavesPage p q = false := by
  cases h with
  | indirect low high l h => exact ⟨_, _, rfl, leavesPage_nextInPage _⟩
  | _ => simp at hm

end Modes

/-- What holds of every place of the instruction set holds of an instruction that is decoded. -/
theorem forall_of_decode {P : Instruction → Prop}
    (table : ∀ entry ∈ Opcode.rows.flatten, ∀ i ∈ entry, P i) {opcode : UInt8} {i : Instruction}
    (h : decode opcode = some i) : P i := by
  obtain h := Option.join_eq_some_iff.1 h
  exact table _ (List.mem_toArray.1 (Array.mem_of_getElem? h)) i rfl

/-- The operations of the instruction set have modes that suit them: the target of a call is in
memory, what a store writes is in memory, and what a shift changes may also be the accumulator. -/
theorem decode_suits {opcode : UInt8} {i : Instruction} (h : decode opcode = some i) :
    (i.operation = .jsr → i.mode = .absolute) ∧ (i.operation.changesOperand → i.mode ≠ .implied) ∧
      (i.mode = .accumulator → i.operation ∈ [.asl, .lsr, .rol, .ror]) := by
  have table : ∀ entry ∈ Opcode.rows.flatten, ∀ i ∈ entry,
      (i.operation = .jsr → i.mode = .absolute) ∧ (i.operation.changesOperand → i.mode ≠ .implied) ∧
        (i.mode = .accumulator → i.operation ∈ [.asl, .lsr, .rol, .ror]) := by decide +kernel
  exact forall_of_decode table h

/-! ### An instruction as a whole -/

/-- The accesses that an instruction makes, the first in front. -/
def accesses (c : Cpu) (bus : β) : List Access :=
  (c.step ({ bus } : Recorded β)).2.2.accesses.reverse

/-- What an instruction leaves alone.  Before it the registers are `r` and afterwards `r'`; behind
its opcode it makes the accesses `fetched`, `pointed` and `worked`. -/
structure Footprint (i : Instruction) (r r' : Registers) (operand : Operand)
    (fetched pointed worked : List Access) : Prop where
  /-- The way to the operand is that of the mode. -/
  finds : i.mode.Finds (r.pc + 1) r.x r.y fetched pointed operand
  /-- The modes of page zero stay there. -/
  zero_page : i.mode ∈ [.zeroPage, .zeroPageX, .zeroPageY] → ∀ a ∈ operand.cells, a < 0x100
  /-- A pointer in page zero is read there. -/
  zero_page_pointer : i.mode ∈ [.indirectX, .indirectY] →
    ∀ a ∈ pointed.filterMap Access.readAt, a < 0x100
  /-- The pointer of an indirect jump is read in one page. -/
  pointer_page : i.mode = .indirect →
    ∃ p q, pointed.filterMap Access.readAt = [p, q] ∧ leavesPage p q = false
  /-- What an instruction changes is in memory, unless it shifts the accumulator. -/
  changed : i.operation.changesOperand → (∃ a, operand = .memory a) ∨
    i.mode = .accumulator ∧ operand = .accumulator ∧ i.operation ∈ [.asl, .lsr, .rol, .ror]
  writes : (fetched ++ pointed ++ worked).filterMap Access.writtenAt =
    i.operation.writes operand r.sp
  reads : worked.filterMap Access.readAt = i.operation.reads operand r
  pc : i.operation.redirects r.status = false → r'.pc = r.pc + 1 + i.mode.operandBytes
  sp : r'.sp = i.operation.stackPointer r
  interrupt : i.operation ∉ Operation.masks → r'.status.interrupt = r.status.interrupt
  decimal : i.operation ∉ Operation.setsDecimal → r'.status.decimal = r.status.decimal

/-- What an instruction makes of registers and bus, once it has found its operand. -/
def executed (c : Cpu) (bus : β) (i : Instruction) : Nat × Registers × β :=
  let located := i.mode.locate (c.registers.pc + 1) c.registers.x c.registers.y bus
  i.operation.execute c.decimalMode located.1.operand
    { c.registers with pc := c.registers.pc + 1 + i.mode.operandBytes } located.2

/-- **What an instruction does behind its opcode**: it finds its operand as its mode does, and then
it works as its mnemonic promises. -/
theorem executed_works (c : Cpu) (b : Recorded β) {opcode : UInt8} {i : Instruction}
    (h : decode opcode = some i) :
    let operand := (i.mode.locate (c.registers.pc + 1) c.registers.x c.registers.y b).1.operand
    ∃ fetched pointed worked,
      (c.executed b i).2.2.accesses =
        worked.reverse ++ (pointed.reverse ++ (fetched.reverse ++ b.accesses)) ∧
      i.mode.Finds (c.registers.pc + 1) c.registers.x c.registers.y fetched pointed operand ∧
      i.operation.Works operand { c.registers with pc := c.registers.pc + 1 + i.mode.operandBytes }
        (c.executed b i).2.1 worked := by
  obtain ⟨hjsr, -, -⟩ := decode_suits h
  obtain ⟨fetched, pointed, hfound, hf⟩ :=
    locate_finds i.mode (c.registers.pc + 1) c.registers.x c.registers.y b
  obtain ⟨worked, hmade, hw⟩ := execute_works i.operation c.decimalMode _
    { c.registers with pc := c.registers.pc + 1 + i.mode.operandBytes }
    (fun ho => hf.operand_memory (by rw [hjsr ho]; decide) (by rw [hjsr ho]; decide))
    (i.mode.locate (c.registers.pc + 1) c.registers.x c.registers.y b).2
  exact ⟨fetched, pointed, worked, hfound ▸ hmade, hf, hw⟩

/-- An opcode that stands for an instruction has it carried out. -/
theorem step_of_decode (c : Cpu) {bus bus₁ : β} {opcode : UInt8} {i : Instruction}
    (hread : Bus.read bus c.registers.pc = (opcode, bus₁)) (h : decode opcode = some i) :
    ∃ n, c.step bus = (.ok n,
      { c with registers := (c.executed bus₁ i).2.1, total := c.total + n },
      (c.executed bus₁ i).2.2) := by
  unfold step
  simp only [hread, h]
  exact ⟨_, rfl⟩

/-- **The footprint of an instruction.**  Whatever the state of the processor and the bus, an
instruction succeeds, and all that it does to registers and bus is within its footprint. -/
theorem step_footprint (c : Cpu) (bus : β) {i : Instruction}
    (h : decode (Bus.read bus c.registers.pc).1 = some i) :
    ∃ n d bus' operand fetched pointed worked, c.step bus = (.ok n, d, bus') ∧
      c.accesses bus = .read c.registers.pc (Bus.read bus c.registers.pc).1 ::
        (fetched ++ pointed ++ worked) ∧
      Footprint i c.registers d.registers operand fetched pointed worked := by
  obtain ⟨hjsr, himplied, haccumulator⟩ := decode_suits h
  -- the same instruction on a bus with a record, in its two parts
  let r : Recorded β := (Bus.read ({ bus } : Recorded β) c.registers.pc).2
  let located := i.mode.locate (c.registers.pc + 1) c.registers.x c.registers.y r
  obtain ⟨fetched, pointed, hfound, hf⟩ :=
    locate_finds i.mode (c.registers.pc + 1) c.registers.x c.registers.y r
  obtain ⟨worked, hmade, hw⟩ :=
    execute_works i.operation c.decimalMode located.1.operand
      { c.registers with pc := c.registers.pc + 1 + i.mode.operandBytes }
      (fun ho => hf.operand_memory (by rw [hjsr ho]; decide) (by rw [hjsr ho]; decide)) located.2
  obtain ⟨n, hs⟩ := c.step_of_decode (show Bus.read ({ bus } : Recorded β) _ = (_, r) from rfl) h
  obtain ⟨e, d, b, bus', hr, hb, -⟩ :=
    step_alike Recorded.simulation (rfl : ({ bus } : Recorded β).Records bus) c
  rw [hs] at hr
  cases hr
  refine ⟨n, _, bus', located.1.operand, fetched, pointed, worked, hb, ?_, ?_⟩
  · have hall : (c.executed r i).2.2.accesses =
        worked.reverse ++ (pointed.reverse ++ (fetched.reverse ++ r.accesses)) :=
      hfound ▸ hmade
    rw [accesses, hs, hall]
    simp [r, Bus.read]
  · exact {
      finds := hf
      zero_page := hf.zero_page
      zero_page_pointer := hf.zero_page_pointer
      pointer_page := hf.pointer_page
      changed := fun hc => by
        by_cases hm : i.mode = .accumulator
        · exact .inr ⟨hm, hf.operand_accumulator hm, haccumulator hm⟩
        · exact .inl (hf.operand_memory (himplied hc) hm)
      writes := by rw [List.filterMap_append, hf.writes_nothing, hw.writes]; rfl
      reads := hw.reads
      pc := hw.pc
      sp := hw.sp
      interrupt := hw.interrupt
      decimal := hw.decimal }

/-- `INC $04` has a footprint. -/
theorem step_footprint_cells :
    let bus : Bus.Cells := ⟨[0xE6, 0x04, 0x00, 0x00, 0x7F]⟩
    decode (Bus.read bus 0).1 = some ⟨.inc, .zeroPage⟩ ∧
      ∃ n d bus' operand fetched pointed worked, ({} : Cpu).step bus = (.ok n, d, bus') ∧
        ({} : Cpu).accesses bus = .read 0 0xE6 :: (fetched ++ pointed ++ worked) ∧
        Footprint ⟨.inc, .zeroPage⟩ {} d.registers operand fetched pointed worked :=
  ⟨by decide +kernel, step_footprint {} _ (by decide +kernel)⟩

end Cpu
end Famicom
