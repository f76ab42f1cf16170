/-
# When the processor stops

The lower digit of an opcode picks a column of the instruction set, and in each column some of the
upper digits are missing.  The 151 opcodes that are there are the documented ones
(`Cpu.documented`).  A byte that is none of them stops the processor, and nothing else does: it is
read, and the processor is what it was (`Cpu.step_of_undocumented`, `Cpu.step_error_iff`).

In a cycle the processor looks at a byte only if it has nothing to wait for and no interrupt to
enter, so a cycle in which it stops consists of that one read (`Cpu.tick_of_error`).
-/

import Famicom.Proofs.Bus.Recording

namespace Famicom
namespace Cpu

/-- The upper digits that there are above a lower digit. -/
def Opcode.uppers : Nat → List Nat
  | 0x0 => [0x0, 0x1, 0x2, 0x3, 0x4, 0x5, 0x6, 0x7, 0x9, 0xA, 0xB, 0xC, 0xD, 0xE, 0xF]
  | 0x2 => [0xA]
  | 0x4 => [0x2, 0x8, 0x9, 0xA, 0xB, 0xC, 0xE]
  | 0x9 => [0x0, 0x1, 0x2, 0x3, 0x4, 0x5, 0x6, 0x7, 0x9, 0xA, 0xB, 0xC, 0xD, 0xE, 0xF]
  | 0xA => [0x0, 0x2, 0x4, 0x6, 0x8, 0x9, 0xA, 0xB, 0xC, 0xE]
  | 0xC => [0x2, 0x4, 0x6, 0x8, 0xA, 0xB, 0xC, 0xE]
  | 0xE => [0x0, 0x1, 0x2, 0x3, 0x4, 0x5, 0x6, 0x7, 0x8, 0xA, 0xB, 0xC, 0xD, 0xE, 0xF]
  | 0x1 | 0x5 | 0x6 | 0x8 | 0xD => List.range 16
  | _ => []

/-- Whether an opcode is documented. -/
def documented (opcode : UInt8) : Bool :=
  (Opcode.uppers (opcode.toNat % 16)).contains (opcode.toNat / 16)

/-- The instruction set has an instruction in the places of the documented opcodes, and in no
others. -/
theorem isSome_rows :
    Opcode.rows.flatten.map Option.isSome =
      (List.range 256).map fun n => documented (UInt8.ofNat n) := by
  decide +kernel

/-- **The documented opcodes stand for instructions**, and no others do. -/
theorem isSome_decode (opcode : UInt8) : (decode opcode).isSome = documented opcode := by
  have h := congrArg (·[opcode.toNat]?) isSome_rows
  rw [List.getElem?_map, List.getElem?_map, List.getElem?_range opcode.toNat_lt, Option.map_some,
    UInt8.ofNat_toNat] at h
  obtain ⟨entry, he, hs⟩ := Option.map_eq_some_iff.1 h
  rw [decode, Opcode.table, List.getElem?_toArray, he, ← hs]
  rfl

/-- There are 151 of them. -/
example : ((List.range 256).countP fun n => documented (UInt8.ofNat n)) = 151 := by decide +kernel

variable {β : Type} [Bus β] {c : Cpu} {bus : β}

/-- The fault in which a byte at the program counter results that stands for nothing. -/
def faultAt (c : Cpu) (bus : β) : Fault :=
  .invalidOpcode (Bus.read bus c.registers.pc).1 c.registers.pc

/-- **An undocumented opcode stops the processor**, which stays as it was; it is read, and no
more. -/
theorem step_of_undocumented (h : documented (Bus.read bus c.registers.pc).1 = false) :
    c.step bus = (.error (c.faultAt bus), c, (Bus.read bus c.registers.pc).2) := by
  rw [← isSome_decode, Option.isSome_eq_false_iff, Option.isNone_iff_eq_none] at h
  unfold step
  dsimp only
  rw [h]
  rfl

/-- A documented opcode does not. -/
theorem step_of_documented (h : documented (Bus.read bus c.registers.pc).1 = true) :
    ∃ n, (c.step bus).1 = .ok n := by
  rw [← isSome_decode, Option.isSome_iff_exists] at h
  obtain ⟨i, hi⟩ := h
  unfold step
  dsimp only
  rw [hi]
  exact ⟨_, rfl⟩

/-- **An instruction fails exactly if its opcode is undocumented.** -/
theorem step_error_iff (c : Cpu) (bus : β) :
    (∃ fault, (c.step bus).1 = .error fault) ↔
      documented (Bus.read bus c.registers.pc).1 = false := by
  constructor
  · rintro ⟨fault, hf⟩
    rw [← Bool.not_eq_true]
    intro h
    obtain ⟨n, hn⟩ := step_of_documented h
    rw [hf] at hn
    cases hn
  · intro h
    exact ⟨_, by rw [step_of_undocumented h]⟩

/-- What the processor is like before a cycle in which it stops: it has nothing to wait for and no
interrupt to enter, and stands before an undocumented opcode. -/
structure Stopping (c : Cpu) (bus : β) : Prop where
  ready : c.remaining = 0
  quiet : c.takesIrq bus = false
  undocumented : documented (Bus.read bus c.registers.pc).1 = false

/-- **A cycle in which the processor stops** is the read of an opcode. -/
theorem Stopping.tick (h : c.Stopping bus) :
    c.tick bus = (.error (c.faultAt bus), c, (Bus.read bus c.registers.pc).2) := by
  unfold Cpu.tick
  rw [if_neg (Decidable.not_not.2 h.ready), if_neg (Bool.eq_false_iff.1 h.quiet),
    step_of_undocumented h.undocumented]

theorem stopping_of_tick {fault : Fault} (h : (c.tick bus).1 = .error fault) : c.Stopping bus := by
  unfold Cpu.tick at h
  by_cases hr : c.remaining ≠ 0
  · rw [if_pos hr] at h
    cases h
  rw [if_neg hr] at h
  by_cases hq : c.takesIrq bus = true
  · rw [if_pos hq] at h
    cases h
  rw [if_neg hq] at h
  refine ⟨Decidable.not_not.1 hr, Bool.eq_false_iff.2 hq, (c.step_error_iff bus).1 ?_⟩
  rcases hs : c.step bus with ⟨f | n, d, bus'⟩
  · exact ⟨f, rfl⟩
  · rw [hs] at h
    cases h

/-- **When a cycle stops the processor.** -/
theorem tick_error_iff (c : Cpu) (bus : β) :
    (∃ fault, (c.tick bus).1 = .error fault) ↔ c.Stopping bus := by
  constructor
  · rintro ⟨fault, h⟩
    exact stopping_of_tick h
  · intro h
    exact ⟨_, by rw [h.tick]⟩

end Cpu
end Famicom
