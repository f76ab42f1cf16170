/-
# How far the processor gets in a bus

Whatever the processor does to its bus it does by reads and writes, so the bus that it leaves lies
at the end of a path of accesses (`Bus.Path`), and a condition that every access keeps is kept by
an instruction and by a cycle (`Bus.Path.preserves`).

Conditions on registers outside of memory need more.  All the bytes that an instruction writes go
to page one, where the stack is, but for one at most: a store writes once, and so does a shift or
a count.  So an instruction writes at most one register, and a condition that such a write may
weaken holds in its weaker form afterwards (`Bus.Path.preserves_once`).
-/

import Famicom.Cpu.Step

namespace Famicom
namespace Bus

variable {β : Type} [Bus β]

/-- A path of accesses from one bus to another, by the writes on it. -/
inductive Path : β → List (UInt16 × UInt8) → β → Prop
  | nil (b : β) : Path b [] b
  | read {b c : β} {writes : List (UInt16 × UInt8)} (address : UInt16)
      (rest : Path (Bus.read b address).2 writes c) : Path b writes c
  | write {b c : β} {writes : List (UInt16 × UInt8)} (address : UInt16) (v : UInt8)
      (rest : Path (Bus.write b address v) writes c) : Path b ((address, v) :: writes) c

/-! ### The stack page

Pushes are the writes of which a turn of the processor can make several.  They go to one page, so
that the others can be counted. -/

/-- Whether an address lies in the page of the stack. -/
def inStackPage (address : UInt16) : Bool := Word.high address == 1

/-- The stack page ends below `0x0200`. -/
theorem lt_of_inStackPage {address : UInt16} (h : inStackPage address = true) :
    address < 0x0200 := by
  have e : (Word.high address).toNat = 1 := by
    rw [inStackPage, beq_iff_eq] at h
    rw [h]
    rfl
  rw [Word.toNat_high] at e
  exact UInt16.lt_iff_toNat_lt.2 (show address.toNat < 512 by omega)

/-- The number of writes that miss the page of the stack. -/
def offStack (writes : List (UInt16 × UInt8)) : Nat :=
  writes.countP fun w => !inStackPage w.1

/-- The writes off the stack of two paths are those of the one and those of the other. -/
theorem offStack_append (l r : List (UInt16 × UInt8)) :
    offStack (l ++ r) = offStack l + offStack r :=
  List.countP_append

/-- The stack page is `$0100` to `$01FF`. -/
example : offStack [(0x01FF, 0), (0x0100, 1), (0x0200, 2)] = 1 := by decide

/-- There are no more of them than writes. -/
theorem offStack_le_length (writes : List (UInt16 × UInt8)) :
    offStack writes ≤ writes.length :=
  List.countP_le_length

namespace Path

variable {b c d : β} {writes more : List (UInt16 × UInt8)}

/-- A path can be gone on with: the writes come one after the other. -/
theorem trans (h : Path b writes c) (k : Path c more d) : Path b (writes ++ more) d := by
  induction h with
  | nil => exact k
  | read address _ ih => exact .read address (ih k)
  | write address v _ ih => exact .write address v (ih k)

/-- A read is a path with no writes, though it may change the bus. -/
theorem ofRead (b : β) (address : UInt16) : Path b [] (Bus.read b address).2 :=
  .read address (.nil _)

/-- A write is a path with itself for its writes. -/
theorem ofWrite (b : β) (address : UInt16) (v : UInt8) :
    Path b [(address, v)] (Bus.write b address v) :=
  .write address v (.nil _)

/-- A condition that every access keeps is kept along a path. -/
theorem preserves {P : β → Prop} (hr : ∀ b address, P b → P (Bus.read b address).2)
    (hw : ∀ b address v, P b → P (Bus.write b address v)) (h : Path b writes c) (hP : P b) :
    P c := by
  induction h with
  | nil => exact hP
  | read address _ ih => exact ih (hr _ address hP)
  | write address v _ ih => exact ih (hw _ address v hP)

/-- A condition that reads and pushes keep is kept along a path that writes nothing else. -/
theorem preserves_of_offStack {P : β → Prop} (hr : ∀ b address, P b → P (Bus.read b address).2)
    (hs : ∀ b address v, inStackPage address = true → P b → P (Bus.write b address v))
    (h : Path b writes c) (hn : offStack writes = 0) (hP : P b) : P c := by
  induction h with
  | nil => exact hP
  | read address _ ih => exact ih hn (hr _ address hP)
  | write address v _ ih =>
    rw [offStack, List.countP_eq_zero] at hn
    have ha := hn _ (List.mem_cons_self ..)
    rw [Bool.not_eq_true', Bool.not_eq_false] at ha
    refine ih ?_ (hs _ address v ha hP)
    rw [offStack, List.countP_eq_zero]
    exact fun w hw => hn w (List.mem_cons_of_mem _ hw)

/-- **One write off the stack weakens a condition once.**  Reads and pushes keep both conditions,
and any write leads from the stronger to the weaker. -/
theorem preserves_once {P Q : β → Prop} (hPQ : ∀ b, P b → Q b)
    (hPr : ∀ b address, P b → P (Bus.read b address).2)
    (hQr : ∀ b address, Q b → Q (Bus.read b address).2)
    (hPs : ∀ b address v, inStackPage address = true → P b → P (Bus.write b address v))
    (hQs : ∀ b address v, inStackPage address = true → Q b → Q (Bus.write b address v))
    (hw : ∀ b address v, P b → Q (Bus.write b address v))
    (h : Path b writes c) (hn : offStack writes ≤ 1) (hP : P b) : Q c := by
  induction h with
  | nil => exact hPQ _ hP
  | read address _ ih => exact ih hn (hPr _ address hP)
  | write address v rest ih =>
    by_cases ha : inStackPage address = true
    · rw [offStack, List.countP_cons_of_neg (by simpa using ha)] at hn
      exact ih hn (hPs _ address v ha hP)
    · -- the one write off the stack: from here on the weaker condition is carried
      rw [offStack, List.countP_cons_of_pos (by simpa using ha)] at hn
      exact rest.preserves_of_offStack hQr hQs (Nat.le_zero.1 (Nat.le_of_succ_le_succ hn))
        (hw _ address v hP)

/-- Reading a word is two reads, wherever its bytes are. -/
theorem readWordAt (b : β) (low high : UInt16) : Path b [] (Bus.readWordAt b low high).2 :=
  (ofRead b low).trans (ofRead _ high)

/-- Reading a word from two bytes in a row. -/
theorem readWord (b : β) (address : UInt16) : Path b [] (Bus.readWord b address).2 :=
  readWordAt b address (address + 1)

/-- Reading a word from the zero page, where the second byte may come round to the first. -/
theorem readZeroPageWord (b : β) (address : UInt8) :
    Path b [] (Bus.readZeroPageWord b address).2 :=
  readWordAt b address.toUInt16 (address + 1).toUInt16

end Path
end Bus

namespace Cpu

open Bus (Path offStack inStackPage)

variable {β : Type} [Bus β]

/-- Every cell of the stack lies in its page. -/
theorem inStackPage_stackCell (sp : UInt8) : inStackPage (stackCell sp) = true := by
  have e : stackCell sp = Word.ofBytes sp 1 := rfl
  have h := Word.toNat_high (Word.ofBytes sp 1)
  have hs := sp.toNat_lt
  rw [Word.toNat_ofBytes] at h
  rw [inStackPage, e, beq_iff_eq, ← UInt8.toNat_inj, h]
  show (256 * 1 + sp.toNat) / 256 = 1
  omega

/-- A path on which only the stack is written. -/
def StackPath (b c : β) : Prop := ∃ writes, Path b writes c ∧ offStack writes = 0

/-- A path on which at most one byte is written that does not go to the stack. -/
def StorePath (b c : β) : Prop := ∃ writes, Path b writes c ∧ offStack writes ≤ 1

/-- Writing on the stack and then on the stack is writing on the stack. -/
theorem StackPath.trans {b c d : β} (h : StackPath b c) (k : StackPath c d) : StackPath b d := by
  obtain ⟨l, hl, el⟩ := h
  obtain ⟨r, hr, er⟩ := k
  exact ⟨l ++ r, hl.trans hr, by rw [Bus.offStack_append, el, er]⟩

/-- Writing on the stack only is writing off it at most once. -/
theorem StackPath.storePath {b c : β} (h : StackPath b c) : StorePath b c := by
  obtain ⟨l, hl, el⟩ := h
  exact ⟨l, hl, by omega⟩

/-- A store may come after any amount of writing on the stack. -/
theorem StackPath.trans_storePath {b c d : β} (h : StackPath b c) (k : StorePath c d) :
    StorePath b d := by
  obtain ⟨l, hl, el⟩ := h
  obtain ⟨r, hr, er⟩ := k
  exact ⟨l ++ r, hl.trans hr, by rw [Bus.offStack_append]; omega⟩

/-- A path without writes. -/
theorem StackPath.ofReads {b c : β} (h : Path b [] c) : StackPath b c := ⟨[], h, rfl⟩

/-- One write, to any address. -/
theorem StorePath.ofWrite (b : β) (address : UInt16) (v : UInt8) :
    StorePath b (Bus.write b address v) :=
  ⟨_, Path.ofWrite b address v, Bus.offStack_le_length _⟩

/-- To find its operand an instruction reads, in every mode. -/
theorem path_locate (mode : AddressingMode) (pc : UInt16) (x y : UInt8) (b : β) :
    Path b [] (mode.locate pc x y b).2 := by
  cases mode with
  | implied | accumulator | immediate | relative => exact .nil b
  | zeroPage | zeroPageX | zeroPageY => exact .ofRead b pc
  | absolute | absoluteX | absoluteY => exact .readWord b pc
  | indirect => exact (Path.readWord b pc).trans (.readWordAt ..)
  | indirectX | indirectY => exact (Path.ofRead b pc).trans (.readZeroPageWord ..)

/-- A push writes one byte on the stack. -/
theorem stackPath_push (r : Registers) (b : β) (v : UInt8) : StackPath b (push r b v).2 := by
  refine ⟨_, Path.ofWrite b (stackCell r.sp) v, ?_⟩
  rw [offStack, List.countP_cons_of_neg (by simpa using inStackPage_stackCell r.sp)]
  rfl

/-- Two pushes, and both on the stack. -/
theorem stackPath_pushWord (r : Registers) (b : β) (w : UInt16) :
    StackPath b (pushWord r b w).2 :=
  (stackPath_push r b (Word.high w)).trans (stackPath_push _ _ (Word.low w))

/-- A pull reads. -/
theorem path_pull (r : Registers) (b : β) : Path b [] (pull r b).2.2 :=
  .ofRead b (stackCell (r.sp + 1))

/-- Two pulls read. -/
theorem path_pullWord (r : Registers) (b : β) : Path b [] (pullWord r b).2.2 :=
  (path_pull r b).trans (path_pull _ _)

/-- Entering an interrupt pushes the counter and the status, and reads the vector. -/
theorem stackPath_enter (r : Registers) (b : β) (vector : UInt16) (brk : Bool) :
    StackPath b (enter r b vector brk).2 :=
  ((stackPath_pushWord r b r.pc).trans (stackPath_push _ _ _)).trans
    (.ofReads (.readWord _ vector))

/-- An operand is read from memory, or not at all. -/
theorem path_load (o : Operand) (r : Registers) (b : β) : Path b [] (o.load r b).2 := by
  cases o with
  | none | accumulator => exact .nil b
  | memory address => exact .ofRead b address

/-- A store writes one byte, or none where it goes to the accumulator. -/
theorem storePath_store (o : Operand) (r : Registers) (b : β) (v : UInt8) :
    StorePath b (o.store r b v).2 := by
  cases o with
  | none | accumulator => exact (StackPath.ofReads (.nil b)).storePath
  | memory address => exact .ofWrite b address v

/-- **An operation writes at most one byte off the stack.** -/
theorem storePath_execute (o : Operation) (decimalMode : Bool) (operand : Operand)
    (r : Registers) (b : β) : StorePath b (o.execute decimalMode operand r b).2.2 := by
  have idle : StorePath b b := (StackPath.ofReads (.nil b)).storePath
  have load : StackPath b (operand.load r b).2 := .ofReads (path_load operand r b)
  unfold Operation.execute
  -- nothing but a store or a read-modify-write can write off the stack, and those write once
  cases o.effect with
  | load act => exact load.storePath
  | store value =>
    cases operand with
    | none | accumulator => exact idle
    | memory address => exact .ofWrite b address (value r)
  | modify act => exact load.trans_storePath (storePath_store ..)
  | branch taken =>
    dsimp only
    split
    · exact load.storePath
    · exact idle
  | internal act => exact idle
  | push value => exact (stackPath_push r b (value r)).storePath
  | pull act => exact (StackPath.ofReads (path_pull r b)).storePath
  | jump => cases operand <;> exact idle
  | call =>
    cases operand with
    | none | accumulator => exact idle
    | memory address => exact (stackPath_pushWord r b (r.pc - 1)).storePath
  | ret => exact (StackPath.ofReads (path_pullWord r b)).storePath
  | returnFromInterrupt =>
    exact (StackPath.ofReads ((path_pull r b).trans (path_pullWord _ _))).storePath
  | software => exact (stackPath_enter _ b irqVector true).storePath

/-- **An instruction writes at most one byte off the stack.** -/
theorem storePath_step (p : Cpu) (b : β) : StorePath b (p.step b).2.2 := by
  have fetch : StackPath b (Bus.read b p.registers.pc).2 := .ofReads (.ofRead b p.registers.pc)
  unfold step
  dsimp only
  cases decode (Bus.read b p.registers.pc).1 with
  | none => exact fetch.storePath
  | some i =>
    have place := StackPath.ofReads (path_locate i.mode (p.registers.pc + 1) p.registers.x
      p.registers.y (Bus.read b p.registers.pc).2)
    exact (fetch.trans place).trans_storePath (storePath_execute ..)

/-- An interrupt writes on the stack only, whichever its vector. -/
theorem stackPath_interrupt (p : Cpu) (b : β) (vector : UInt16) :
    StackPath b (p.interrupt b vector).2 :=
  stackPath_enter p.registers b vector false

/-- An NMI writes on the stack only. -/
theorem stackPath_nmi (p : Cpu) (b : β) : StackPath b (p.nmi b).2 :=
  stackPath_interrupt p b nmiVector

/-- An IRQ writes on the stack only, or is not taken. -/
theorem stackPath_irq (p : Cpu) (b : β) : StackPath b (p.irq b).2.2 := by
  unfold irq
  split
  · exact .ofReads (.nil b)
  · exact stackPath_interrupt p b irqVector

/-- **A cycle writes at most one byte off the stack.** -/
theorem storePath_tick (p : Cpu) (b : β) : StorePath b (p.tick b).2.2 := by
  unfold tick
  split
  · exact (StackPath.ofReads (.nil b)).storePath
  · split
    · exact (stackPath_irq p b).storePath
    · have h := storePath_step p b
      split
      · rename_i hb
        rwa [hb] at h
      · rename_i hb
        rwa [hb] at h

end Cpu
end Famicom
