/-
# A machine cycle in which the processor stops

By the time the processor looks at the byte that stops it, the picture unit, the sound unit and the
cartridge have had their share of the cycle.  But what could have changed the processor before, an
NMI or a charge, would have given it something to wait for (`Console.uncharged_of_ready`), and then
it would not have looked.  So in the cycle in which the processor stops there are three dots, a
cycle of the sound unit, a cycle of the cartridge and one read, and nothing else
(`Console.cycle_of_stopping`).
-/

import Famicom.Proofs.Console.Stolen
import Famicom.Proofs.Cpu.Stopping

namespace Famicom
namespace Console

open Bus (Recorded)

variable {c : Console}

/-- The address space after three dots, a cycle of the sound unit and one of the cartridge. -/
def ticked (c : Console) : Memory := c.memory.tickPpu.tickPpu.tickPpu.tickApu.tickBoard

/-- A processor that has nothing to wait for has entered no NMI and has been charged nothing. -/
theorem uncharged_of_ready (h : c.tickHardware.cpu.remaining = 0) :
    c.cpu.remaining = 0 ∧ c.entersNmi = false ∧ c.stolen = 0 := by
  have hr := c.remaining_logHardware
  rw [logHardware_eq] at h
  dsimp only at h
  rw [h, charge] at hr
  refine ⟨by omega, ?_, by omega⟩
  cases hn : c.entersNmi with
  | false => rfl
  | true =>
    rw [hn, Bool.toNat_true] at hr
    omega

/-- Without an NMI and a charge the hardware's share of a cycle does not touch the processor. -/
theorem tickHardware_of_uncharged (hn : c.entersNmi = false) (hs : c.stolen = 0) :
    c.tickHardware = { c with memory := c.ticked } := by
  have hlog : c.logNmi = (c.cpu, ({ memory := c.memory } : Memory.Logged).tickPpu) := by
    obtain ⟨-, h⟩ | ⟨h, -⟩ := c.logNmi_cases
    · exact h
    · rw [hn] at h
      cases h
  have hstall : c.ticked.takeStall = (0, c.ticked) := by
    have h : c.ticked.takeStall.1 = 0 := by
      rw [stolen, hlog] at hs
      exact hs
    rw [(takeStall_eq _).1] at h
    exact if_pos h
  have hnmi : c.memory.tickPpu.takeNmi = (false, c.memory.tickPpu) :=
    if_neg (Bool.eq_false_iff.1 hn)
  unfold tickHardware
  dsimp only
  rw [hnmi, if_neg Bool.false_ne_true]
  dsimp only
  rw [show c.memory.tickPpu.tickPpu.tickPpu.tickApu.tickBoard = c.ticked from rfl, hstall]
  rfl

/-- What a console is like before a cycle in which the processor stops. -/
structure Stopping (c : Console) : Prop where
  entersNmi : c.entersNmi = false
  stolen : c.stolen = 0
  cpu : c.cpu.Stopping c.ticked

/-- **A cycle in which the processor stops.** -/
theorem Stopping.cycle (h : c.Stopping) :
    c.cycle =
      (.error (c.cpu.faultAt c.ticked),
        { c with memory := (c.ticked.read c.cpu.registers.pc).2 }) := by
  have ht := h.cpu.tick
  rw [cycle_eq, tickHardware_of_uncharged h.entersNmi h.stolen]
  generalize c.ticked = m at ht ⊢
  rw [ht]
  rfl

theorem stopping_of_cycle {fault : Cpu.Fault} (h : c.cycle.1 = .error fault) : c.Stopping := by
  rw [cycle_eq] at h
  have hk := Cpu.stopping_of_tick h
  obtain ⟨-, hn, hs⟩ := uncharged_of_ready hk.ready
  rw [tickHardware_of_uncharged hn hs] at hk
  exact ⟨hn, hs, hk⟩

/-- **When a cycle stops the processor**: no NMI is entered and nothing is charged in it, and the
processor stops at the byte that it finds when the others have had their share. -/
theorem cycle_error_iff (c : Console) : (∃ fault, c.cycle.1 = .error fault) ↔ c.Stopping := by
  constructor
  · rintro ⟨fault, h⟩
    exact stopping_of_cycle h
  · intro h
    exact ⟨_, by rw [h.cycle]⟩

/-- The processor makes no access but the read of the opcode. -/
theorem Stopping.accessesOf (h : c.Stopping) :
    c.accessesOf .cycle = [.read c.cpu.registers.pc (c.ticked.read c.cpu.registers.pc).1] := by
  have hr : c.cpu.Stopping ({ bus := c.ticked } : Recorded Memory) :=
    ⟨h.cpu.ready, h.cpu.quiet, h.cpu.undocumented⟩
  have ht := hr.tick
  rw [Console.accessesOf, h.entersNmi, if_neg Bool.false_ne_true,
    tickHardware_of_uncharged h.entersNmi h.stolen]
  generalize c.ticked = m at ht ⊢
  rw [ht]
  rfl

/-- **What stops the processor leaves it as it was.**  If a machine cycle stops at an opcode, no
NMI has been entered in it and nothing has been charged.  The processor, the count of frames and
the settings are what they were; the picture unit has gone through three dots, the sound unit and
the cartridge through one cycle each; then the opcode has been read from where the program counter
points, and this is the only access that the processor has made.  An instruction fails, on any bus,
exactly if the byte at the program counter is an undocumented opcode. -/
theorem fault_leaves_processor (c : Console) :
    (∀ opcode pc, c.cycle.1 = .error (.invalidOpcode opcode pc) →
      c.entersNmi = false ∧ c.stolen = 0 ∧
      c.cycle.2 = { c with memory := c.cycle.2.memory } ∧ pc = c.cpu.registers.pc ∧
      c.memory.tickPpu.tickPpu.tickPpu.tickApu.tickBoard.read pc = (opcode, c.cycle.2.memory) ∧
      c.accessesOf .cycle = [.read pc opcode]) ∧
    ∀ (β : Type) [Bus β] (cpu : Cpu) (bus : β), (∃ fault, (cpu.step bus).1 = .error fault) ↔
      Cpu.documented (Bus.read bus cpu.registers.pc).1 = false := by
  refine ⟨fun opcode pc h => ?_, fun β _ cpu bus => cpu.step_error_iff bus⟩
  have hk := stopping_of_cycle h
  have hc := hk.cycle
  have hf : Cpu.Fault.invalidOpcode (c.ticked.read c.cpu.registers.pc).1 c.cpu.registers.pc =
      .invalidOpcode opcode pc := by
    rw [hc] at h
    exact Except.error.inj h
  obtain ⟨ho, hp⟩ := Cpu.Fault.invalidOpcode.inj hf
  refine ⟨hk.entersNmi, hk.stolen, ?_, hp.symm, ?_, ?_⟩
  · rw [hc]
  · rw [hc, ← ho, ← hp]
    rfl
  · rw [hk.accessesOf, ho, hp]

/-- A console that is about to carry out the byte `$02` at the start of memory. -/
def derailed : Console :=
  { cpu := {}, memory := (Memory.ofBoard .blank Apu.defaultRate).write 0x0000 0x02 }

/-- The byte stands for nothing. -/
theorem fault_leaves_processor_derailed :
    derailed.cycle.1 = .error (.invalidOpcode 0x02 0x0000) ∧ derailed.cycle.2.cpu = derailed.cpu ∧
      derailed.accessesOf .cycle = [.read 0x0000 0x02] := by
  have h : derailed.cycle.1 = .error (.invalidOpcode 0x02 0x0000) := by decide +kernel
  obtain ⟨-, -, hc, -, -, ha⟩ := (fault_leaves_processor derailed).1 _ _ h
  refine ⟨h, ?_, ha⟩
  rw [hc]

end Console
end Famicom
