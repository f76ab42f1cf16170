/-
# Back from a handler

Entering a handler pushes three bytes, the program counter and the status, and `RTI` pulls them
again.  On plain memory the one undoes the other, for every value of the stack pointer: the three
cells are different ones even if the stack wraps around (`Cpu.stackCell_inj`), so what is pulled is
what was pushed (`Cpu.enter_pushed`), and a status survives its way through memory, because B is no
flag (`Status.ofByte_toStack`).  What is left behind is the cycles, and the frame in memory
(`Cpu.Interrupted`).
-/

import Famicom.Bus.Flat
import Famicom.Proofs.Bus.Path

namespace Famicom

open Bus (Flat inStackPage)

namespace Cpu

namespace Status

/-- Of the two bits that are no flags one is always set and one is always clear. -/
theorem toByte_and (s : Status) : s.toByte &&& 0x30 = 0x20 := by
  obtain ⟨c, z, i, d, v, n⟩ := s
  revert c z i d v n
  decide

/-- What is lost of a byte that is taken for a status. -/
theorem toByte_ofByte (b : UInt8) : (ofByte b).toByte = b &&& 0xCF ||| 0x20 := by
  have h : ∀ n < 256, (ofByte (UInt8.ofNat n)).toByte = UInt8.ofNat n &&& 0xCF ||| 0x20 := by
    decide +kernel
  rw [← UInt8.ofNat_toNat (x := b)]
  exact h b.toNat b.toNat_lt

/-- B tells who has pushed a status. -/
theorem toStack_and (s : Status) (brk : Bool) :
    s.toStack brk &&& 0x10 = if brk then 0x10 else 0 := by
  obtain ⟨c, z, i, d, v, n⟩ := s
  revert c z i d v n brk
  decide

end Status

/-- No two values of the stack pointer have the same cell. -/
theorem stackCell_inj {s t : UInt8} : stackCell s = stackCell t ↔ s = t := by
  constructor
  · intro h
    have e : Word.ofBytes s 1 = Word.ofBytes t 1 := h
    rw [← UInt16.toNat_inj, Word.toNat_ofBytes, Word.toNat_ofBytes] at e
    exact UInt8.toNat_inj.1 (Nat.add_left_cancel e)
  · exact congrArg stackCell

/-- The cells of what entering a handler pushes. -/
def frame (sp : UInt8) : List UInt16 := [stackCell sp, stackCell (sp - 1), stackCell (sp - 1 - 1)]

/-- The three cells of a frame are different ones. -/
theorem nodup_frame (sp : UInt8) : (frame sp).Nodup := by
  have h₁ : sp ≠ sp - 1 := by grind
  have h₂ : sp ≠ sp - 1 - 1 := by grind
  have h₃ : sp - 1 ≠ sp - 1 - 1 := by grind
  simp [frame, stackCell_inj, h₁, h₂, h₃]

/-- A frame that goes around the end of the page. -/
example : frame 0x01 = [0x0101, 0x0100, 0x01FF] := by decide

section Enter

variable (r : Registers) (m : Flat) (vector : UInt16) (brk : Bool)

/-- What is in memory when a handler has been entered. -/
theorem enter_get (a : UInt16) :
    (enter r m vector brk).2.get a =
      if stackCell (r.sp - 1 - 1) = a then r.status.toStack brk
      else if stackCell (r.sp - 1) = a then Word.low r.pc
      else if stackCell r.sp = a then Word.high r.pc
      else m.get a := by
  show (((m.set _ _).set _ _).set _ _).get a = _
  simp only [Flat.get_set]

/-- Outside of its frame memory stays as it is. -/
theorem enter_get_of_not_mem {a : UInt16} (h : a ∉ frame r.sp) :
    (enter r m vector brk).2.get a = m.get a := by
  simp only [frame, List.mem_cons, List.not_mem_nil, or_false, not_or] at h
  rw [enter_get, if_neg (Ne.symm h.2.2), if_neg (Ne.symm h.2.1), if_neg (Ne.symm h.1)]

/-- What has been pushed. -/
theorem enter_pushed :
    let m' := (enter r m vector brk).2
    m'.get (stackCell (r.sp - 1 - 1)) = r.status.toStack brk ∧
      m'.get (stackCell (r.sp - 1)) = Word.low r.pc ∧ m'.get (stackCell r.sp) = Word.high r.pc := by
  have h := nodup_frame r.sp
  simp only [frame, List.nodup_cons, List.mem_cons, List.not_mem_nil, or_false, not_or] at h
  obtain ⟨⟨h₀₁, h₀₂⟩, h₁₂, -⟩ := h
  refine ⟨?_, ?_, ?_⟩
  · rw [enter_get, if_pos rfl]
  · rw [enter_get, if_neg (Ne.symm h₁₂), if_pos rfl]
  · rw [enter_get, if_neg (Ne.symm h₀₂), if_neg (Ne.symm h₀₁), if_pos rfl]

/-- The handler begins where its vector says that it does, the vector not being on the stack. -/
theorem enter_pc (hv : inStackPage vector = false) (hv' : inStackPage (vector + 1) = false) :
    (enter r m vector brk).1.pc = (Bus.readWord m vector).1 := by
  have off {a : UInt16} (ha : inStackPage a = false) : a ∉ frame r.sp := by
    intro h
    simp only [frame, List.mem_cons, List.not_mem_nil, or_false] at h
    rcases h with rfl | rfl | rfl <;> exact absurd ((inStackPage_stackCell _).symm.trans ha) nofun
  show Word.ofBytes ((enter r m vector brk).2.get vector)
    ((enter r m vector brk).2.get (vector + 1)) = _
  rw [enter_get_of_not_mem _ _ _ _ (off hv), enter_get_of_not_mem _ _ _ _ (off hv')]
  rfl

/-- **An `RTI` undoes the entry into a handler.** -/
theorem execute_rti_enter (decimalMode : Bool) (operand : Operand) (pc : UInt16) :
    Operation.rti.execute decimalMode operand { (enter r m vector brk).1 with pc }
      (enter r m vector brk).2 =
      (0, r, (enter r m vector brk).2) := by
  have up (s : UInt8) : s - 1 + 1 = s := by grind
  obtain ⟨status, low, high⟩ := enter_pushed r m vector brk
  -- what is pulled, cell by cell
  show (0, { r with
      sp := r.sp - 1 - 1 - 1 + 1 + 1 + 1
      pc := Word.ofBytes ((enter r m vector brk).2.get (stackCell (r.sp - 1 - 1 - 1 + 1 + 1)))
        ((enter r m vector brk).2.get (stackCell (r.sp - 1 - 1 - 1 + 1 + 1 + 1)))
      status := Status.ofByte ((enter r m vector brk).2.get (stackCell (r.sp - 1 - 1 - 1 + 1))) },
    (enter r m vector brk).2) = _
  simp only [up, status, low, high, Word.ofBytes_low_high, Status.ofByte_toStack]

end Enter

/-- An instruction without an operand, on any bus. -/
theorem step_implied {β : Type} [Bus β] {c : Cpu} {b : β} {o : Operation}
    (h : decode (Bus.read b c.registers.pc).1 = some ⟨o, .implied⟩) :
    c.step b =
      let e := o.execute c.decimalMode .none { c.registers with pc := c.registers.pc + 1 }
        (Bus.read b c.registers.pc).2
      let n := (Instruction.mk o .implied).cycles + e.1
      (.ok n, { c with registers := e.2.1, total := c.total + n }, e.2.2) := by
  have hp : (Instruction.mk o .implied).mode.operandBytes = 0 := rfl
  unfold step
  simp only [h, hp, UInt16.add_zero]
  rfl

/-- Plain memory does not notice that the opcode is read. -/
theorem step_implied_flat {c : Cpu} {m : Flat} {o : Operation}
    (h : decode (m.get c.registers.pc) = some ⟨o, .implied⟩) :
    c.step m =
      let e := o.execute c.decimalMode .none { c.registers with pc := c.registers.pc + 1 } m
      let n := (Instruction.mk o .implied).cycles + e.1
      (.ok n, { c with registers := e.2.1, total := c.total + n }, e.2.2) :=
  step_implied (b := m) h

/-- The processor stands before an `RTI`. -/
def AtReturn (c : Cpu) (m : Flat) : Prop := decode (m.get c.registers.pc) = some ⟨.rti, .implied⟩

/-- What the processor and memory are when a handler has been entered, with `pushed` as the
registers that are to come back. -/
structure Interrupted (vector : UInt16) (brk : Bool) (back : Registers) (m : Flat) (c : Cpu)
    (m' : Flat) : Prop where
  /-- The handler begins where its vector says. -/
  handler : c.registers.pc = (Bus.readWord m vector).1
  /-- Memory has changed within the frame only. -/
  outside : ∀ a ∉ frame back.sp, m'.get a = m.get a
  /-- B is set by `BRK`, and not by an interrupt. -/
  pushed : m'.get (stackCell (back.sp - 1 - 1)) &&& 0x10 = if brk then 0x10 else 0
  /-- An `RTI` brings the registers back. -/
  returns : c.AtReturn m' →
    c.step m' = (.ok 6, { c with registers := back, total := c.total + 6 }, m')

variable {vector : UInt16} {brk : Bool} {back : Registers} {m m' : Flat} {c : Cpu}

/-- An `RTI` that lies outside of the frame is still there. -/
theorem Interrupted.atReturn (h : Interrupted vector brk back m c m')
    (hr : decode (m.get (Bus.readWord m vector).1) = some ⟨.rti, .implied⟩)
    (ho : (Bus.readWord m vector).1 ∉ frame back.sp) : c.AtReturn m' := by
  rw [AtReturn, h.handler, h.outside _ ho, hr]

/-- **The entry into a handler can be undone.** -/
theorem interrupted_of_enter (hv : inStackPage vector = false)
    (hv' : inStackPage (vector + 1) = false) (hc : c.registers = (enter back m vector brk).1)
    (hm : m' = (enter back m vector brk).2) : Interrupted vector brk back m c m' where
  handler := by rw [hc, enter_pc _ _ _ _ hv hv']
  outside a ha := by rw [hm, enter_get_of_not_mem _ _ _ _ ha]
  pushed := by rw [hm, (enter_pushed back m vector brk).1, Status.toStack_and]
  returns h := by
    rw [step_implied_flat h, hc, hm, execute_rti_enter]
    rfl

/-- **Handlers return.**  Of the status byte bit 5 is set and bit 4 is clear, always, and a byte
that is pulled is brought into this form.  On plain memory let the processor enter the handler of
an NMI, that of an IRQ that is not masked, or that of a `BRK`, whatever the stack pointer.  If it
then stands before an `RTI`, this restores all registers, the program counter after a `BRK` being
two bytes further on; and the byte that has been pushed has bit 4 set by `BRK` only. -/
theorem handlers_return (c : Cpu) (m : Flat) :
    (c.registers.status.toByte &&& 0x30 = 0x20 ∧
      ∀ b, (Status.ofByte b).toByte = b &&& 0xCF ||| 0x20) ∧
    Interrupted nmiVector false c.registers m (c.nmi m).1 (c.nmi m).2 ∧
    (c.registers.status.interrupt = false → (c.irq m).1 = true ∧
      Interrupted irqVector false c.registers m (c.irq m).2.1 (c.irq m).2.2) ∧
    (decode (m.get c.registers.pc) = some ⟨.brk, .implied⟩ → (c.step m).1 = .ok 7 ∧
      Interrupted irqVector true { c.registers with pc := c.registers.pc + 2 } m
        (c.step m).2.1 (c.step m).2.2) := by
  refine ⟨⟨c.registers.status.toByte_and, Status.toByte_ofByte⟩, ?_, fun h => ?_, fun h => ?_⟩
  · exact interrupted_of_enter (by decide) (by decide) rfl rfl
  · rw [irq, h]
    exact ⟨rfl, interrupted_of_enter (by decide) (by decide) rfl rfl⟩
  · have pc : c.registers.pc + 1 + 1 = c.registers.pc + 2 := by grind
    rw [step_implied_flat h, ← pc]
    exact ⟨rfl, interrupted_of_enter (by decide) (by decide) rfl rfl⟩

/-- Handlers at `$9000` that consist of an `RTI` return to `$1234`, where there is a `BRK`, from a
stack that wraps around. -/
theorem handlers_return_wrapping :
    let m : Flat := ((({} : Flat).set 0xFFFB 0x90).set 0xFFFF 0x90).set 0x9000 0x40
    let c : Cpu :=
      { registers := { a := 0x55, sp := 0x01, pc := 0x1234, status := { interrupt := false } } }
    ((c.nmi m).1.step (c.nmi m).2).2.1.registers = c.registers ∧
      ((c.irq m).2.1.step (c.irq m).2.2).2.1.registers = c.registers ∧
      ((c.step m).2.1.step (c.step m).2.2).2.1.registers = { c.registers with pc := 0x1236 } := by
  intro m c
  -- the memory has three bytes that are not zero: the vectors' upper ones and the handler's `RTI`
  have get (a : UInt16) : m.get a =
      if 0x9000 = a then 0x40 else if 0xFFFF = a then 0x90 else if 0xFFFB = a then 0x90 else 0 := by
    have empty : ({} : Flat).get a = 0 := Vector.getElem_replicate _
    simp only [m, Flat.get_set, empty]
  have vector (v : UInt16) : (Bus.readWord m v).1 = Word.ofBytes (m.get v) (m.get (v + 1)) := rfl
  have nmi : (Bus.readWord m nmiVector).1 = 0x9000 := by
    rw [vector, get, get]
    decide
  have irq : (Bus.readWord m irqVector).1 = 0x9000 := by
    rw [vector, get, get]
    decide
  have rti : decode (m.get 0x9000) = some ⟨.rti, .implied⟩ := by
    rw [get]
    decide +kernel
  have brk : decode (m.get c.registers.pc) = some ⟨.brk, .implied⟩ := by
    rw [get]
    decide +kernel
  obtain ⟨-, hn, hi, hb⟩ := handlers_return c m
  have hi := (hi rfl).2
  have hb := (hb brk).2
  refine ⟨?_, ?_, ?_⟩
  · rw [hn.returns (hn.atReturn (by rw [nmi, rti]) (by rw [nmi]; decide))]
  · rw [hi.returns (hi.atReturn (by rw [irq, rti]) (by rw [irq]; decide))]
  · rw [hb.returns (hb.atReturn (by rw [irq, rti]) (by rw [irq]; decide))]
    rfl

end Cpu
end Famicom
