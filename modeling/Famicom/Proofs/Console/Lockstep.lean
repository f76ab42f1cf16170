/-
# Everything runs in lockstep

A processor that carries out an instruction whole in its first cycle keeps step with the rest of
the machine only because of what it then waits for.  The waiting is made up of what instructions
cost, what the entry into an interrupt costs and what is stolen for transfers and samples; each of
these is added to `Cpu.remaining` and to `Cpu.total` alike, and a cycle that passes takes one from
`Cpu.remaining`.  So the cycles that the processor has been charged are those that have passed and
those that it still waits for (`Console.InStep`).
-/

import Famicom.Proofs.Console.Program

namespace Famicom

namespace Memory

/-- A fetch of the sample player is no cycle of the sound unit. -/
theorem cycles_fetchSample (m : Memory) : m.fetchSample.apu.cycles = m.apu.cycles := by
  unfold fetchSample
  split
  · rfl
  · exact (spared_read m _).cycles

/-- Taking a request is no cycle of the sound unit. -/
theorem cycles_takeNmi (m : Memory) : m.takeNmi.2.apu.cycles = m.apu.cycles := by
  unfold takeNmi
  split <;> rfl

/-- Taking the stolen cycles is no cycle of the sound unit. -/
theorem cycles_takeStall (m : Memory) : m.takeStall.2.apu.cycles = m.apu.cycles := by
  unfold takeStall
  split <;> rfl

/-- A cycle of the sound unit counts, whether it fetches a byte or not. -/
theorem cycles_tickApu (m : Memory) : m.tickApu.apu.cycles = m.apu.cycles + 1 :=
  (cycles_fetchSample _).trans (Apu.cycles_tick m.apu)

namespace Logged

/-- No access is a cycle of the sound unit. -/
theorem cycles_path {l l' : Logged} {writes : List (UInt16 × UInt8)} (h : Bus.Path l writes l') :
    l'.memory.apu.cycles = l.memory.apu.cycles := by
  refine h.preserves (P := fun k => k.memory.apu.cycles = l.memory.apu.cycles) ?_ ?_ rfl
  · intro k address hk
    exact (spared_read k.memory address).cycles.trans hk
  · intro k address v hk
    exact (cycles_write k.memory address v).trans hk

end Logged
end Memory

namespace Console

open Memory (Logged)

/-! ### A console in step

Two counts are compared with the number of cycles: the sound unit's, which is the same, and the
processor's, which is ahead of it by what the processor still waits for. -/

/-- A console is in step after `n` cycles: the sound unit has counted them, and so has the
processor, which has been charged for those that it still waits for as well. -/
structure InStep (c : Console) (n : Nat) : Prop where
  apu : c.memory.apu.cycles = n
  cpu : c.cpu.total = n + c.cpu.remaining

/-- A console is in step after a reset. -/
theorem inStep_reset (c : Console) : c.reset.InStep 0 where
  apu := rfl
  cpu := rfl

/-- The first dot and an NMI, with all its accesses, are no cycle of the sound unit. -/
theorem cycles_logNmi (c : Console) : c.logNmi.2.memory.apu.cycles = c.memory.apu.cycles := by
  obtain ⟨_, h⟩ | ⟨_, r, k, ⟨writes, hk, _⟩, h⟩ := c.logNmi_cases
  · rw [h]
    rfl
  · rw [h, Logged.cycles_path hk]
    exact Memory.cycles_takeNmi c.memory.tickPpu

/-- In the hardware's share of a cycle the sound unit counts once. -/
theorem cycles_logHardware (c : Console) :
    c.logHardware.2.memory.apu.cycles = c.memory.apu.cycles + 1 := by
  rw [← cycles_logNmi, logHardware]
  generalize c.logNmi.2 = l
  dsimp only
  rw [Logged.memory_takeStall, Memory.cycles_takeStall]
  exact Memory.cycles_tickApu l.memory.tickPpu.tickPpu

/-- **A machine cycle is one cycle of the sound unit**, whatever else happens in it. -/
theorem cycles_cycle (c : Console) :
    c.cycle.2.memory.apu.cycles = c.memory.apu.cycles + 1 := by
  obtain ⟨k, ⟨writes, hk, _⟩, h⟩ := Cpu.tickLogged_path c.logHardware.1 c.logHardware.2
  rw [memory_cycle, logCycle, ← cycles_logHardware, ← Logged.cycles_path hk]
  rcases h with h | h | ⟨n, h⟩
  · rw [h]
  · rw [h]
    rfl
  · rw [h]
    rfl

/-- In a cycle that succeeds the processor is charged for one cycle more than it waits longer. -/
theorem total_cycle {c : Console} (hc : c.cycle.1 = .ok ()) :
    c.cycle.2.cpu.total + c.cpu.remaining = c.cpu.total + c.cycle.2.cpu.remaining + 1 := by
  rw [result_cycle, logCycle] at hc
  rw [cpu_cycle, logCycle]
  have hr := c.remaining_logHardware
  have ht := c.total_logHardware
  obtain ⟨h₀, h⟩ | ⟨h₀, r, l, _, h⟩ | ⟨h₀, n, r, l, hn, _, h⟩ | ⟨fault, l, _, h⟩ :=
    Cpu.tickLogged_cases c.logHardware.1 c.logHardware.2
  · rw [h]
    dsimp only
    omega
  · rw [h]
    dsimp only
    omega
  · rw [h]
    dsimp only
    omega
  · rw [h] at hc
    cases hc

/-- **A cycle that succeeds keeps the console in step.** -/
theorem InStep.cycle {c : Console} {n : Nat} (h : c.InStep n) (hc : c.cycle.1 = .ok ()) :
    c.cycle.2.InStep (n + 1) where
  apu := by rw [cycles_cycle, h.apu]
  cpu := by
    have ht := total_cycle hc
    rw [h.cpu] at ht
    omega

/-- What the host does between two cycles keeps the console in step. -/
theorem InStep.call {c : Console} {n : Nat} (h : c.InStep n) {x : Call} (hx : c.Succeeds x) :
    (c.call x).InStep (n + x.isCycle.toNat) := by
  cases x with
  | cycle => exact h.cycle hx
  | read address => exact ⟨(Memory.spared_read c.memory address).cycles.trans h.apu, h.cpu⟩
  | write address v => exact ⟨(Memory.cycles_write c.memory address v).trans h.apu, h.cpu⟩
  | hold buttons => exact ⟨h.apu, h.cpu⟩
  | clearSamples => exact ⟨h.apu, h.cpu⟩

/-- A run that succeeds keeps the console in step. -/
theorem InStep.after {c : Console} {n : Nat} (h : c.InStep n) {calls : List Call}
    (hc : c.AllSucceed calls) : (c.after calls).InStep (n + calls.countP Call.isCycle) := by
  induction calls generalizing c n with
  | nil => exact h
  | cons x rest ih =>
    have hx := ih (h.call hc.1) hc.2
    rw [after_cons, List.countP_cons]
    cases hi : x.isCycle with
    | true =>
      rw [hi] at hx
      rwa [if_pos rfl, Nat.add_comm (rest.countP _), ← Nat.add_assoc]
    | false =>
      rw [hi] at hx
      exact hx

/-! ### What else happens in a cycle -/

/-- A processor that waits does not stop, and it waits at most one cycle less afterwards. -/
theorem succeeds_of_waits {c : Console} (h : c.cpu.remaining ≠ 0) :
    c.cycle.1 = .ok () ∧ c.cpu.remaining ≤ c.cycle.2.cpu.remaining + 1 := by
  have hr := c.remaining_logHardware
  have hw : c.logHardware.1.remaining ≠ 0 := by omega
  rw [result_cycle, cpu_cycle, logCycle, Cpu.tickLogged, if_pos hw]
  refine ⟨rfl, ?_⟩
  dsimp only
  omega

/-- A cycle takes at most one off what the processor waits for: it may add to it. -/
theorem remaining_cycle (c : Console) : c.cpu.remaining ≤ c.cycle.2.cpu.remaining + 1 := by
  by_cases h : c.cpu.remaining = 0
  · rw [h]
    exact Nat.zero_le _
  · exact (succeeds_of_waits h).2

/-- The dots and the cycles of the cartridge in a run. -/
theorem countP_events {p : Event → Bool} {dots : Bool} (hp : Event.Steady p dots)
    (hq : ∀ e : Event, e.isInterruption = true → p e = false)
    (hi : ∀ n, p (.instruction n) = false) (c : Console) (calls : List Call) :
    (c.events calls).countP p =
      calls.countP Call.isCycle * (3 * dots.toNat + (p .board).toNat) := by
  induction calls generalizing c with
  | nil => rw [events, List.countP_nil, List.countP_nil, Nat.zero_mul]
  | cons x rest ih =>
    rw [events, List.countP_append, ih, List.countP_cons]
    cases x with
    | cycle =>
      have hc : Call.cycle.isCycle = true := rfl
      rw [eventsOf, List.countP_reverse, countP_logCycle hp (hq _ rfl) hi, countP_logHardware hp,
        hq .nmi rfl, hq (.stall _) rfl, Bool.and_false, Bool.and_false, if_pos hc, Nat.add_comm]
      exact (Nat.succ_mul _ _).symm
    | write address v =>
      have hw := Logged.countP_write hp { memory := c.memory } address v
      rw [eventsOf, hw]
      exact Nat.zero_add _
    | read address => exact Nat.zero_add _
    | hold buttons => exact Nat.zero_add _
    | clearSamples => exact Nat.zero_add _

/-- **Everything runs in lockstep.**  In a run from a reset in which the processor does not stop,
whatever the host asks for between the machine cycles, the sound unit has counted the cycles, the
picture unit has gone through three dots and the cartridge through one cycle in each, and the
processor has been charged for the cycles that have passed and for those that it still waits
for. -/
theorem runs_in_lockstep (c : Console) (calls : List Call) (h : c.reset.AllSucceed calls) :
    (c.reset.after calls).memory.apu.cycles = calls.countP Call.isCycle ∧
      (c.reset.events calls).countP Event.isDot = 3 * calls.countP Call.isCycle ∧
      (c.reset.events calls).count .board = calls.countP Call.isCycle ∧
      (c.reset.after calls).cpu.total =
        calls.countP Call.isCycle + (c.reset.after calls).cpu.remaining := by
  have hs := c.inStep_reset.after h
  have hd :=
    countP_events Event.steady_isDot (fun _ => Event.isDot_of_isInterruption) (fun _ => rfl)
    c.reset calls
  have hb := countP_events Event.steady_board (fun _ => Event.ne_board_of_isInterruption)
    (fun _ => rfl) c.reset calls
  rw [Nat.zero_add] at hs
  refine ⟨hs.apu, ?_, ?_, hs.cpu⟩
  · rw [hd, Nat.mul_comm]
    rfl
  · rw [List.count, hb]
    exact Nat.mul_one _

/-- A run in which the processor carries out four instructions, before the host starts a transfer to
object memory for which it has to wait. -/
theorem runs_in_lockstep_stealing :
    let calls := cycles 14 ++ [.write 0x4014 0x02, .clearSamples, .hold 0x09] ++ cycles 2
    stealing.reset.AllSucceed calls ∧
      (stealing.reset.events calls).countP Event.isInstruction = 4 ∧
      (stealing.reset.after calls).memory.apu.cycles = 16 ∧
      (stealing.reset.after calls).cpu.total = 16 + (stealing.reset.after calls).cpu.remaining := by
  intro calls
  have h : stealing.reset.AllSucceed calls ∧
      (stealing.reset.events calls).countP Event.isInstruction = 4 := by
    rw [stealing, reset_holding]
    decide +kernel
  obtain ⟨ha, -, -, ht⟩ := runs_in_lockstep stealing calls h.1
  exact ⟨h.1, h.2, ha, ht⟩

end Console
end Famicom
