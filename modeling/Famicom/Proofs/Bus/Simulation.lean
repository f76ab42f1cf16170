/-
# Buses that a processor cannot tell apart

A processor knows its bus only through `read`, `write` and `irqLine`.  If a relation between two
buses survives every access, and related buses answer every access alike, then whatever the
processor does on one bus it does on the other: the answers are the same and the buses stay
related.

The statements below say so for everything that the processor is made of, from reading a word to
a whole cycle (`Cpu.tick_alike`).  A bus that keeps a record of what happens on it is related to
the bus without the record, so a record can be kept without changing the machine.
-/

import Famicom.Cpu.Step

namespace Famicom
namespace Bus

variable {α δ β γ : Type}

/-- Two answers are alike: the same value, and related buses. -/
def Alike (R : β → γ → Prop) (x : α × β) (y : α × γ) : Prop :=
  ∃ a b c, x = (a, b) ∧ y = (a, c) ∧ R b c

/-- Two answers of two values are alike. -/
def AlikeTwo (R : β → γ → Prop) (x : α × δ × β) (y : α × δ × γ) : Prop :=
  ∃ a d b c, x = (a, d, b) ∧ y = (a, d, c) ∧ R b c

/-- Two buses answer alike if the answer is one and the buses are related. -/
theorem Alike.intro {R : β → γ → Prop} {b : β} {c : γ} (a : α) (h : R b c) :
    Alike R (a, b) (a, c) :=
  ⟨a, b, c, rfl, rfl, h⟩

/-- The same for two answers, one of which is the registers. -/
theorem AlikeTwo.intro {R : β → γ → Prop} {b : β} {c : γ} (a : α) (d : δ) (h : R b c) :
    AlikeTwo R (a, d, b) (a, d, c) :=
  ⟨a, d, b, c, rfl, rfl, h⟩

/-- A relation between two buses that no access breaks. -/
structure Simulation [Bus β] [Bus γ] (R : β → γ → Prop) : Prop where
  read {b : β} {c : γ} (h : R b c) (address : UInt16) :
    Alike R (Bus.read b address) (Bus.read c address)
  write {b : β} {c : γ} (h : R b c) (address : UInt16) (v : UInt8) :
    R (Bus.write b address v) (Bus.write c address v)
  irqLine {b : β} {c : γ} (h : R b c) : Bus.irqLine b = Bus.irqLine c

namespace Simulation

variable [Bus β] [Bus γ] {R : β → γ → Prop} {b : β} {c : γ}

/-- Words are read alike: each byte is. -/
theorem readWordAt (S : Simulation R) (h : R b c) (low high : UInt16) :
    Alike R (Bus.readWordAt b low high) (Bus.readWordAt c low high) := by
  obtain ⟨l, b₁, c₁, hb₁, hc₁, h₁⟩ := S.read h low
  obtain ⟨k, b₂, c₂, hb₂, hc₂, h₂⟩ := S.read h₁ high
  simp only [Bus.readWordAt, hb₁, hb₂, hc₁, hc₂]
  exact .intro _ h₂

/-- Words from two bytes in a row are read alike. -/
theorem readWord (S : Simulation R) (h : R b c) (address : UInt16) :
    Alike R (Bus.readWord b address) (Bus.readWord c address) :=
  S.readWordAt h address (address + 1)

/-- Words from the zero page are read alike. -/
theorem readZeroPageWord (S : Simulation R) (h : R b c) (address : UInt8) :
    Alike R (Bus.readZeroPageWord b address) (Bus.readZeroPageWord c address) :=
  S.readWordAt h address.toUInt16 (address + 1).toUInt16

end Simulation
end Bus

namespace Cpu

open Bus (Alike AlikeTwo Simulation)

variable {β γ : Type} [Bus β] [Bus γ] {R : β → γ → Prop} {b : β} {c : γ}

/-- Related buses hold an operand at the same place. -/
theorem locate_alike (S : Simulation R) (h : R b c) (mode : AddressingMode) (pc : UInt16)
    (x y : UInt8) : Alike R (mode.locate pc x y b) (mode.locate pc x y c) := by
  -- every read of a mode is answered alike, and the next one starts from related buses
  cases mode with
  | implied | accumulator | immediate | relative => exact .intro _ h
  | zeroPage | zeroPageX | zeroPageY =>
    obtain ⟨v, b₁, c₁, hb₁, hc₁, h₁⟩ := S.read h pc
    simp only [AddressingMode.locate, hb₁, hc₁]
    exact .intro _ h₁
  | absolute | absoluteX | absoluteY =>
    obtain ⟨w, b₁, c₁, hb₁, hc₁, h₁⟩ := S.readWord h pc
    simp only [AddressingMode.locate, hb₁, hc₁]
    exact .intro _ h₁
  | indirect =>
    obtain ⟨w, b₁, c₁, hb₁, hc₁, h₁⟩ := S.readWord h pc
    obtain ⟨k, b₂, c₂, hb₂, hc₂, h₂⟩ := S.readWordAt h₁ w (nextInPage w)
    simp only [AddressingMode.locate, hb₁, hb₂, hc₁, hc₂]
    exact .intro _ h₂
  | indirectX =>
    obtain ⟨v, b₁, c₁, hb₁, hc₁, h₁⟩ := S.read h pc
    obtain ⟨k, b₂, c₂, hb₂, hc₂, h₂⟩ := S.readZeroPageWord h₁ (v + x)
    simp only [AddressingMode.locate, hb₁, hb₂, hc₁, hc₂]
    exact .intro _ h₂
  | indirectY =>
    obtain ⟨v, b₁, c₁, hb₁, hc₁, h₁⟩ := S.read h pc
    obtain ⟨k, b₂, c₂, hb₂, hc₂, h₂⟩ := S.readZeroPageWord h₁ v
    simp only [AddressingMode.locate, hb₁, hb₂, hc₁, hc₂]
    exact .intro _ h₂

/-- Pushing a byte. -/
theorem push_alike (S : Simulation R) (h : R b c) (r : Registers) (v : UInt8) :
    Alike R (push r b v) (push r c v) :=
  .intro _ (S.write h (stackCell r.sp) v)

/-- Pushing a word: two pushes, one after the other. -/
theorem pushWord_alike (S : Simulation R) (h : R b c) (r : Registers) (w : UInt16) :
    Alike R (pushWord r b w) (pushWord r c w) := by
  obtain ⟨r₁, b₁, c₁, hb₁, hc₁, h₁⟩ := push_alike S h r (Word.high w)
  simp only [pushWord, hb₁, hc₁]
  exact push_alike S h₁ r₁ (Word.low w)

/-- Pulling a byte, with the same registers after it. -/
theorem pull_alike (S : Simulation R) (h : R b c) (r : Registers) :
    AlikeTwo R (pull r b) (pull r c) := by
  obtain ⟨v, b₁, c₁, hb₁, hc₁, h₁⟩ := S.read h (stackCell (r.sp + 1))
  simp only [pull, hb₁, hc₁]
  exact .intro _ _ h₁

/-- Pulling a word. -/
theorem pullWord_alike (S : Simulation R) (h : R b c) (r : Registers) :
    AlikeTwo R (pullWord r b) (pullWord r c) := by
  obtain ⟨l, r₁, b₁, c₁, hb₁, hc₁, h₁⟩ := pull_alike S h r
  obtain ⟨k, r₂, b₂, c₂, hb₂, hc₂, h₂⟩ := pull_alike S h₁ r₁
  simp only [pullWord, hb₁, hb₂, hc₁, hc₂]
  exact .intro _ _ h₂

/-- Entering an interrupt: what is pushed comes from the registers, and the vector is read alike. -/
theorem enter_alike (S : Simulation R) (h : R b c) (r : Registers) (vector : UInt16)
    (brk : Bool) : Alike R (enter r b vector brk) (enter r c vector brk) := by
  obtain ⟨r₁, b₁, c₁, hb₁, hc₁, h₁⟩ := pushWord_alike S h r r.pc
  obtain ⟨r₂, b₂, c₂, hb₂, hc₂, h₂⟩ := push_alike S h₁ r₁ (r₁.status.toStack brk)
  obtain ⟨pc, b₃, c₃, hb₃, hc₃, h₃⟩ := S.readWord h₂ vector
  simp only [enter, hb₁, hb₂, hb₃, hc₁, hc₂, hc₃]
  exact .intro _ h₃

/-- Loading an operand, which reads at most once. -/
theorem load_alike (S : Simulation R) (h : R b c) (o : Operand) (r : Registers) :
    Alike R (o.load r b) (o.load r c) := by
  cases o with
  | none | accumulator => exact .intro _ h
  | memory address => exact S.read h address

/-- Storing to an operand, which writes at most once. -/
theorem store_alike (S : Simulation R) (h : R b c) (o : Operand) (r : Registers) (v : UInt8) :
    Alike R (o.store r b v) (o.store r c v) := by
  cases o with
  | none | accumulator => exact .intro _ h
  | memory address => exact .intro r (S.write h address v)

/-- An operation does the same on related buses. -/
theorem execute_alike (S : Simulation R) (h : R b c) (o : Operation) (decimalMode : Bool)
    (operand : Operand) (r : Registers) :
    AlikeTwo R (o.execute decimalMode operand r b) (o.execute decimalMode operand r c) := by
  unfold Operation.execute
  -- one case for each kind of effect: what was answered alike is put in, and the rest agrees
  cases o.effect with
  | load act =>
    obtain ⟨v, b₁, c₁, hb₁, hc₁, h₁⟩ := load_alike S h operand r
    simp only [hb₁, hc₁]
    exact .intro _ _ h₁
  | store value =>
    cases operand with
    | none | accumulator => exact .intro _ _ h
    | memory address => exact .intro _ _ (S.write h address (value r))
  | modify act =>
    obtain ⟨v, b₁, c₁, hb₁, hc₁, h₁⟩ := load_alike S h operand r
    obtain ⟨r₂, b₂, c₂, hb₂, hc₂, h₂⟩ := store_alike S h₁ operand r (act r.status.carry v).2
    simp only [hb₁, hb₂, hc₁, hc₂]
    exact .intro _ _ h₂
  | branch taken =>
    by_cases ht : taken r.status = true
    · obtain ⟨v, b₁, c₁, hb₁, hc₁, h₁⟩ := load_alike S h operand r
      simp only [ht, if_true, hb₁, hc₁]
      exact .intro _ _ h₁
    · simp only [ht]
      exact .intro _ _ h
  | internal act => exact .intro _ _ h
  | push value => exact .intro _ _ (S.write h (stackCell r.sp) (value r))
  | pull act =>
    obtain ⟨v, r₁, b₁, c₁, hb₁, hc₁, h₁⟩ := pull_alike S h r
    simp only [hb₁, hc₁]
    exact .intro _ _ h₁
  | jump => cases operand <;> exact .intro _ _ h
  | call =>
    cases operand with
    | none | accumulator => exact .intro _ _ h
    | memory address =>
      obtain ⟨r₁, b₁, c₁, hb₁, hc₁, h₁⟩ := pushWord_alike S h r (r.pc - 1)
      simp only [hb₁, hc₁]
      exact .intro _ _ h₁
  | ret =>
    obtain ⟨w, r₁, b₁, c₁, hb₁, hc₁, h₁⟩ := pullWord_alike S h r
    simp only [hb₁, hc₁]
    exact .intro _ _ h₁
  | returnFromInterrupt =>
    obtain ⟨v, r₁, b₁, c₁, hb₁, hc₁, h₁⟩ := pull_alike S h r
    obtain ⟨w, r₂, b₂, c₂, hb₂, hc₂, h₂⟩ := pullWord_alike S h₁ r₁
    simp only [hb₁, hb₂, hc₁, hc₂]
    exact .intro _ _ h₂
  | software =>
    obtain ⟨r₁, b₁, c₁, hb₁, hc₁, h₁⟩ := enter_alike S h { r with pc := r.pc + 1 } irqVector true
    simp only [hb₁, hc₁]
    exact .intro _ _ h₁

/-- **An instruction does the same on related buses**, whether it succeeds or not. -/
theorem step_alike (S : Simulation R) (h : R b c) (p : Cpu) :
    AlikeTwo R (p.step b) (p.step c) := by
  obtain ⟨opcode, b₁, c₁, hb₁, hc₁, h₁⟩ := S.read h p.registers.pc
  unfold step
  simp only [hb₁, hc₁]
  cases decode opcode with
  | none => exact .intro _ _ h₁
  | some i =>
    obtain ⟨l, b₂, c₂, hb₂, hc₂, h₂⟩ :=
      locate_alike S h₁ i.mode (p.registers.pc + 1) p.registers.x p.registers.y
    obtain ⟨n, r, b₃, c₃, hb₃, hc₃, h₃⟩ :=
      execute_alike S h₂ i.operation p.decimalMode l.operand
        { p.registers with pc := p.registers.pc + 1 + i.mode.operandBytes }
    simp only [hb₂, hb₃, hc₂, hc₃]
    exact .intro _ _ h₃

/-- Interrupts are entered alike, and cost the same. -/
theorem interrupt_alike (S : Simulation R) (h : R b c) (p : Cpu) (vector : UInt16) :
    Alike R (p.interrupt b vector) (p.interrupt c vector) := by
  obtain ⟨r, b₁, c₁, hb₁, hc₁, h₁⟩ := enter_alike S h p.registers vector false
  simp only [interrupt, hb₁, hc₁]
  exact .intro _ h₁

/-- NMIs are entered alike. -/
theorem nmi_alike (S : Simulation R) (h : R b c) (p : Cpu) : Alike R (p.nmi b) (p.nmi c) :=
  interrupt_alike S h p nmiVector

/-- IRQs are taken alike: whether one is depends on the registers, and on the line, which is the
same. -/
theorem irq_alike (S : Simulation R) (h : R b c) (p : Cpu) : AlikeTwo R (p.irq b) (p.irq c) := by
  obtain ⟨q, b₁, c₁, hb₁, hc₁, h₁⟩ := interrupt_alike S h p irqVector
  unfold irq
  by_cases hi : p.registers.status.interrupt = true
  · simp only [hi, if_true]
    exact .intro _ _ h
  · simp only [hi, hb₁, hc₁]
    exact .intro _ _ h₁

/-- **A cycle of the processor does the same on related buses.** -/
theorem tick_alike (S : Simulation R) (h : R b c) (p : Cpu) :
    AlikeTwo R (p.tick b) (p.tick c) := by
  unfold tick
  by_cases hr : p.remaining ≠ 0
  · simp only [if_pos hr]
    exact .intro _ _ h
  · have hirq : p.takesIrq b = p.takesIrq c := by simp only [takesIrq, S.irqLine h]
    simp only [if_neg hr, hirq]
    by_cases ht : p.takesIrq c = true
    · obtain ⟨t, q, b₁, c₁, hb₁, hc₁, h₁⟩ := irq_alike S h p
      simp only [if_pos ht, hb₁, hc₁]
      exact .intro _ _ h₁
    · obtain ⟨e, q, b₁, c₁, hb₁, hc₁, h₁⟩ := step_alike S h p
      simp only [if_neg ht, hb₁, hc₁]
      cases e <;> exact .intro _ _ h₁

end Cpu
end Famicom
