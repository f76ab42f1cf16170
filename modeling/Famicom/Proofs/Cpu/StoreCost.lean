/-
# What it costs to write far out

Three cycles are enough to write to page zero, and to push.  Whatever else an instruction writes,
it writes into an operand that it has found by an address of two bytes, so it costs four cycles at
the least (`Cpu.four_le_of_writes`).  An interrupt does not write there at all, and so a processor
that has done so in its turn waits for three cycles or more before the next one
(`Cpu.tick_of_writes`).
-/

import Famicom.Proofs.Bus.Path
import Famicom.Proofs.Cpu.Footprint

namespace Famicom

open Bus (Access Recorded inStackPage)

/-- An address beyond the stack is not in its page. -/
theorem Bus.not_inStackPage {a : UInt16} (h : 0x200 ≤ a) : inStackPage a = false := by
  rw [← Bool.not_eq_true]
  exact fun hs => UInt16.not_lt.2 h (lt_of_inStackPage hs)

namespace Cpu

/-- What an operation writes is on the stack, or it is the operand that it changes. -/
theorem Operation.changesOperand_of_writes {o : Operation} {operand : Operand} {sp : UInt8}
    {a : UInt16} (h : a ∈ o.writes operand sp) (ha : inStackPage a = false) :
    o.changesOperand = true ∧ a ∈ operand.cells := by
  have off (s : UInt8) : a ≠ stackCell s := by
    rintro rfl
    rw [inStackPage_stackCell] at ha
    cases ha
  cases o with
  | pha | php | jsr | brk => simp [writes, off] at h
  | sta | stx | sty | asl | lsr | rol | ror | inc | dec => exact ⟨rfl, h⟩
  | _ => cases h

/-- **An operand that is changed far out costs four cycles.** -/
theorem four_le_cycles {opcode : UInt8} {i : Instruction} (h : decode opcode = some i)
    (hc : i.operation.changesOperand = true) :
    i.mode ∈ [.zeroPage, .zeroPageX, .zeroPageY] ∨ i.mode = .accumulator ∨ 4 ≤ i.cycles := by
  have table : ∀ entry ∈ Opcode.rows.flatten, ∀ i ∈ entry, i.operation.changesOperand = true →
      i.mode ∈ [.zeroPage, .zeroPageX, .zeroPageY] ∨ i.mode = .accumulator ∨ 4 ≤ i.cycles := by
    decide +kernel
  exact forall_of_decode table h hc

variable {β : Type} [Bus β]

/-- An instruction is charged what the table says, or more. -/
theorem cycles_le_of_step (c : Cpu) {bus : β} {i : Instruction}
    (h : decode (Bus.read bus c.registers.pc).1 = some i) :
    ∃ n, i.cycles ≤ n ∧ (c.step bus).1 = .ok n := by
  unfold step
  dsimp only
  rw [h]
  exact ⟨_, by omega, rfl⟩

/-- An opcode that stands for nothing is read, and no more. -/
theorem step_of_not_decode (c : Cpu) {bus : β} (h : decode (Bus.read bus c.registers.pc).1 = none) :
    (c.step bus).2.2 = (Bus.read bus c.registers.pc).2 := by
  unfold step
  dsimp only
  rw [h]

/-- **An instruction that writes beyond the stack** takes four cycles. -/
theorem four_le_cycles_of_executed (c : Cpu) {r : Recorded β} {opcode : UInt8} {i : Instruction}
    (hd : decode opcode = some i) (hr : r.accesses.filterMap Access.writtenAt = []) {a : UInt16}
    (h : a ∈ (c.executed r i).2.2.accesses.filterMap Access.writtenAt) (ha : 0x200 ≤ a) :
    4 ≤ i.cycles := by
  obtain ⟨fetched, pointed, worked, hmade, hf, hw⟩ := c.executed_works r hd
  -- nothing is written on the way to the operand
  have hp : (pointed.reverse ++ fetched.reverse).filterMap Access.writtenAt = [] := by
    rw [← List.reverse_append, List.filterMap_reverse, hf.writes_nothing, List.reverse_nil]
  rw [hmade, ← List.append_assoc pointed.reverse, List.filterMap_append, List.filterMap_append,
    hp, hr, List.append_nil, List.append_nil, List.filterMap_reverse, hw.writes,
      List.mem_reverse] at h
  obtain ⟨hc, hm⟩ := Operation.changesOperand_of_writes h (Bus.not_inStackPage ha)
  obtain hz | hz | hz := four_le_cycles hd hc
  · exact absurd (UInt16.le_trans ha (UInt16.le_of_lt (hf.zero_page hz a hm))) (by decide)
  · rw [hf.operand_accumulator hz] at hm
    cases hm
  · exact hz

/-- **What an instruction writes beyond the stack costs four cycles.** -/
theorem four_le_of_writes (c : Cpu) {bus : β} {result : Except Fault Nat} {d : Cpu} {r : Recorded β}
    (hs : c.step ({ bus } : Recorded β) = (result, d, r)) {a : UInt16}
    (h : a ∈ r.accesses.filterMap Access.writtenAt) (ha : 0x200 ≤ a) :
    ∃ n, 4 ≤ n ∧ result = .ok n := by
  cases hd : decode (Bus.read ({ bus } : Recorded β) c.registers.pc).1 with
  | none =>
    have hr := c.step_of_not_decode hd
    rw [hs] at hr
    dsimp only at hr
    rw [hr] at h
    cases h
  | some i =>
    obtain ⟨n, hn, hc⟩ := c.cycles_le_of_step hd
    obtain ⟨k, hk⟩ := c.step_of_decode rfl hd
    rw [hs] at hc
    rw [hs, Prod.mk.injEq, Prod.mk.injEq] at hk
    rw [hk.2.2] at h
    exact ⟨n, Nat.le_trans (c.four_le_cycles_of_executed hd rfl h ha) hn, hc⟩

/-- The entry into an interrupt writes nothing beyond the stack. -/
theorem inStackPage_of_stackPath {r r' : Recorded β} (h : StackPath r r') (hr : r.accesses = [])
    {a : UInt16} (ha : a ∈ r'.accesses.filterMap Access.writtenAt) : inStackPage a = true := by
  obtain ⟨writes, h, hn⟩ := h
  refine h.preserves_of_offStack (P := fun k => ∀ a ∈ k.accesses.filterMap Access.writtenAt,
    inStackPage a = true) ?_ ?_ hn ?_ a ha
  · intro k address hk
    exact hk
  · intro k address v hs hk b hb
    obtain rfl | hb := List.mem_cons.1 hb
    · exact hs
    · exact hk b hb
  · rw [hr]
    exact nofun

/-- **A processor that writes beyond the stack in its turn** had nothing to wait for, and now it
waits for three cycles at least. -/
theorem tick_of_writes (c : Cpu) (bus : β) {a : UInt16}
    (h : a ∈ (c.tick ({ bus } : Recorded β)).2.2.accesses.filterMap Access.writtenAt)
    (ha : 0x200 ≤ a) : c.remaining = 0 ∧ 3 ≤ (c.tick ({ bus } : Recorded β)).2.1.remaining := by
  unfold tick at h ⊢
  by_cases hr : c.remaining ≠ 0
  · rw [if_pos hr] at h
    cases h
  rw [if_neg hr] at h ⊢
  -- an IRQ writes on the stack only, so the write is an instruction's
  by_cases hi : c.takesIrq ({ bus } : Recorded β) = true
  · rw [if_pos hi] at h
    have hs := inStackPage_of_stackPath (stackPath_irq c ({ bus } : Recorded β)) rfl h
    rw [Bus.not_inStackPage ha] at hs
    cases hs
  · rw [if_neg hi] at h ⊢
    rcases hs : c.step ({ bus } : Recorded β) with ⟨f | n, d, r⟩
    · rw [hs] at h
      obtain ⟨n, -, he⟩ := c.four_le_of_writes hs h ha
      cases he
    · rw [hs] at h
      obtain ⟨n', hn, he⟩ := c.four_le_of_writes hs h ha
      cases he
      refine ⟨Decidable.not_not.1 hr, ?_⟩
      dsimp only
      omega

end Cpu
end Famicom
