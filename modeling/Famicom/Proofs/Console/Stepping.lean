/-
# What a step of an instruction carries out

`Console.stepInstruction` runs cycles while the processor waits, then one more, and then again
cycles while the processor waits.  It is meant to carry out one instruction.  It does so if the
cycle in the middle begins an instruction.  But that cycle may as well enter an interrupt, or find
that cycles have been stolen: then what the processor waits for afterwards is the entry or the
stolen cycles, and the step ends before any instruction.
-/

import Famicom.Proofs.Board.Blank
import Famicom.Proofs.Console.Lockstep
import Famicom.Proofs.Console.Loop

namespace Famicom
namespace Console

open Memory (Logged)

/-- The instructions that are carried out in a machine cycle. -/
def instructionsIn (c : Console) : Nat := (c.eventsOf .cycle).countP Event.isInstruction

/-- Whether an interrupt or a charge keeps the processor from an instruction in a machine cycle. -/
def interrupted (c : Console) : Bool := (c.eventsOf .cycle).any Event.isInterruption

/-- No instruction is carried out in the hardware's share of a cycle. -/
theorem countP_isInstruction_logHardware (c : Console) :
    c.logHardware.2.log.countP Event.isInstruction = 0 := by
  rw [countP_logHardware_of_not Event.steady_isInstruction rfl fun _ => rfl]
  exact congrArg Bool.toNat (Bool.and_false _)

/-- No instruction is carried out while the processor waits. -/
theorem instructionsIn_of_waits {c : Console} (h : c.cpu.remaining ≠ 0) :
    c.instructionsIn = 0 := by
  have hr := c.remaining_logHardware
  have hw : c.logHardware.1.remaining ≠ 0 := by omega
  rw [instructionsIn, eventsOf, List.countP_reverse, logCycle, Cpu.tickLogged, if_pos hw]
  exact c.countP_isInstruction_logHardware

/-- A cycle is interrupted if its log has an interrupt or a charge. -/
theorem interrupted_iff {c : Console} :
    c.interrupted = true ↔ 0 < c.logCycle.2.2.log.countP Event.isInterruption := by
  rw [interrupted, List.any_eq_true, eventsOf, List.countP_pos_iff]
  simp only [List.mem_reverse]

/-- The hardware notes an interruption if it charges the processor for one. -/
theorem countP_isInterruption_pos {c : Console} :
    0 < c.logHardware.2.log.countP Event.isInterruption ↔ c.charge ≠ 0 := by
  rw [countP_logHardware Event.steady_isInterruption, charge]
  simp only [Event.isInterruption, Bool.toNat_false, Nat.mul_zero, Nat.zero_add, Bool.and_true]
  by_cases hs : c.stolen = 0
  · rw [hs]
    cases c.entersNmi <;> decide
  · rw [bne_iff_ne.2 hs]
    have : true.toNat = 1 := rfl
    omega

/-- **What a cycle begins that finds the processor ready**: an instruction, unless it is kept
from it. -/
theorem instructionsIn_of_ready {c : Console} (h : c.cpu.remaining = 0)
    (hc : c.cycle.1 = .ok ()) : c.instructionsIn = if c.interrupted then 0 else 1 := by
  have hr := c.remaining_logHardware
  have hi := c.countP_isInstruction_logHardware
  have hp := countP_isInterruption_pos (c := c)
  rw [result_cycle, logCycle] at hc
  rw [instructionsIn, eventsOf, List.countP_reverse]
  obtain ⟨h₀, e⟩ | ⟨h₀, r, k, ⟨writes, hk, _⟩, e⟩ | ⟨h₀, n, r, k, _, ⟨writes, hk, _⟩, e⟩ |
    ⟨fault, k, _, e⟩ := Cpu.tickLogged_cases c.logHardware.1 c.logHardware.2
  · -- the hardware has made the processor wait
    have hn : c.interrupted = true := by
      rw [interrupted_iff, logCycle, e]
      exact hp.2 (by omega)
    rw [if_pos hn, logCycle, e]
    exact hi
  · have hn : c.interrupted = true := by
      rw [interrupted_iff, logCycle, e]
      exact List.countP_pos_iff.2 ⟨.irq, List.mem_cons_self .., rfl⟩
    rw [if_pos hn, logCycle, e]
    exact (Logged.countP_path Event.steady_isInstruction hk).trans hi
  · have hn : ¬ c.interrupted = true := by
      have hk' := Logged.countP_path Event.steady_isInterruption hk
      rw [interrupted_iff, logCycle, e, Nat.not_lt, Nat.le_zero]
      refine hk'.trans (Nat.eq_zero_of_not_pos fun hpos => ?_)
      exact hp.1 hpos (by omega)
    have hk' := Logged.countP_path Event.steady_isInstruction hk
    rw [if_neg hn, logCycle, e]
    show (Event.instruction n :: k.log).countP Event.isInstruction = 1
    rw [List.countP_cons_of_pos rfl, hk', hi]
  · rw [e] at hc
    cases hc

/-- No instruction is carried out in cycles that find the processor waiting. -/
theorem countP_events_of_waits {c : Console} {k : Nat}
    (h : ∀ j < k, (c.after (cycles j)).cpuWaits = true) :
    (c.events (cycles k)).countP Event.isInstruction = 0 := by
  induction k generalizing c with
  | zero => rfl
  | succ k ih =>
    have hc : c.cpu.remaining ≠ 0 := bne_iff_ne.1 (h 0 (Nat.succ_pos k))
    have hk : (c.cycle.2.events (cycles k)).countP Event.isInstruction = 0 := by
      refine ih fun j hj => ?_
      rw [← after_cycles_succ]
      exact h (j + 1) (Nat.succ_lt_succ hj)
    rw [events_cycles_succ, List.countP_append, hk, Nat.add_zero]
    exact instructionsIn_of_waits hc

/-- **What a step of an instruction carries out.**  A step that ends as it should runs cycles until
the processor is ready; in the cycle after that it carries out one instruction, and in the whole
step no other.  If an interrupt is entered or stolen cycles are charged in that cycle it carries
out none. -/
theorem instructions_of_stepInstruction (c : Console) (h : c.stepInstruction.fault? = none) :
    c.stepInstruction.console = c.after (cycles c.stepInstruction.cycles) ∧
    ∃ k < c.stepInstruction.cycles,
      (∀ j < k, (c.after (cycles j)).cpu.remaining ≠ 0) ∧
      (c.after (cycles k)).cpu.remaining = 0 ∧
      (c.events (cycles c.stepInstruction.cycles)).countP Event.isInstruction =
        if (c.after (cycles k)).interrupted then 0 else 1 := by
  rw [stepInstruction] at h ⊢
  generalize c.instructionBound = bound at h ⊢
  -- from the end backwards: the loop after the cycle, the cycle, the loop before it
  obtain ⟨h₂, e₃⟩ := Run.fault?_andWhile h
  rw [e₃] at h ⊢
  obtain ⟨h₁, hok, hn₂, hc₂⟩ := Run.fault?_cycle h₂
  obtain ⟨k, hn₁, hc₁, hw₁, hs₁⟩ := cycleWhile_spec h₁
  rw [hn₁, Nat.zero_add] at hn₂
  rw [hc₁] at hok hc₂
  rw [hn₂, hc₂] at h ⊢
  obtain ⟨m, hn₃, hc₃, hw₃, _⟩ := cycleWhile_spec h
  have hn : k + 1 + m = k + (m + 1) := by omega
  have hr : (c.after (cycles k)).cpu.remaining = 0 := by
    rw [cpuWaits, bne_eq_false_iff_eq] at hs₁
    exact hs₁
  rw [hn₃, hc₃, hn]
  refine ⟨?_, k, by omega, ?_, hr, ?_⟩
  · rw [after_cycles_add, after_cycles_succ]
  · intro j hj
    exact bne_iff_ne.1 (hw₁ j hj)
  · -- in both loops the processor waits, so the count is that of the cycle between them
    rw [events_cycles_add, events_cycles_succ, List.countP_append, List.countP_append,
      countP_events_of_waits hw₁, countP_events_of_waits hw₃, Nat.zero_add, Nat.add_zero]
    exact instructionsIn_of_ready hr hok

/-- A step that begins with the four cycles of a sample still to be charged carries out nothing. -/
theorem instructions_of_stepInstruction_stolen :
    let c : Console :=
      { cpu := {}, memory := { Memory.ofBoard .blank Apu.defaultRate with pendingStall := 4 } }
    c.stepInstruction.fault? = none ∧
      (c.events (cycles c.stepInstruction.cycles)).countP Event.isInstruction = 0 := by
  intro c
  have h : c.stepInstruction.fault? = none := by decide +kernel
  obtain ⟨_, k, _, hw, _, hi⟩ := instructions_of_stepInstruction c h
  have hk : k = 0 := Nat.eq_zero_of_not_pos fun hp => hw 0 hp rfl
  have hs : (c.after (cycles 0)).interrupted = true := by decide +kernel
  rw [hk, hs] at hi
  exact ⟨h, hi⟩

end Console
end Famicom
