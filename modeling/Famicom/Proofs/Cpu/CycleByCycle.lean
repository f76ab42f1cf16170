/-
# Instructions cycle by cycle

An instruction is carried out whole in its first cycle, and the processor waits for the rest of its
cost. So on a bus that never requests an interrupt the cycles of the processor do what the
instructions do: after as many cycles as the instructions have cost, the processor and the bus are
what the instructions have made of them, and the same accesses have been made in the same order
(`Cpu.ticks_refine_steps`).  If the next instruction stops the processor, so does the next cycle.
-/

import Famicom.Proofs.Bus.Recording

namespace Famicom

namespace Cpu

open Bus (Access Alike AlikeTwo Recorded Simulation)

variable {β γ : Type} [Bus β] [Bus γ]

-- unfolding a run is not to carry its instructions out
attribute [local irreducible] step

/-- Carry out so many instructions, or as many as there are before the processor stops.  The answer
is what they cost together. -/
def steps (c : Cpu) (bus : β) : Nat → Except Fault Nat × Cpu × β
  | 0 => (.ok 0, c, bus)
  | k + 1 =>
    match c.steps bus k with
    | (.ok cost, c, bus) =>
      match c.step bus with
      | (.ok n, c, bus) => (.ok (cost + n), c, bus)
      | (.error fault, c, bus) => (.error fault, c, bus)
    | stopped => stopped

/-- So many cycles pass, or as many as there are before the processor stops. -/
def ticks (c : Cpu) (bus : β) : Nat → Except Fault Unit × Cpu × β
  | 0 => (.ok (), c, bus)
  | n + 1 =>
    match c.ticks bus n with
    | (.ok (), c, bus) => c.tick bus
    | stopped => stopped

/-- The accesses that so many instructions make, the first in front. -/
def accessesOfSteps (c : Cpu) (bus : β) (k : Nat) : List Access :=
  (c.steps ({ bus } : Recorded β) k).2.2.accesses.reverse

/-- The accesses that are made in so many cycles, the first in front. -/
def accessesOfTicks (c : Cpu) (bus : β) (n : Nat) : List Access :=
  (c.ticks ({ bus } : Recorded β) n).2.2.accesses.reverse

variable {c d : Cpu} {bus bus' : β}

theorem steps_succ_of_ok {k cost : Nat} (h : c.steps bus k = (.ok cost, d, bus')) :
    c.steps bus (k + 1) =
      match d.step bus' with
      | (.ok n, c, bus) => (.ok (cost + n), c, bus)
      | (.error fault, c, bus) => (.error fault, c, bus) := by
  simp only [steps, h]

theorem ticks_succ_of_ok {n : Nat} (h : c.ticks bus n = (.ok (), d, bus')) :
    c.ticks bus (n + 1) = d.tick bus' := by
  rw [ticks, h]

/-- Cycles that follow cycles. -/
theorem ticks_add {m : Nat} (h : c.ticks bus m = (.ok (), d, bus')) (n : Nat) :
    c.ticks bus (m + n) = d.ticks bus' n := by
  induction n with
  | zero => exact h
  | succ n ih => rw [← Nat.add_assoc, ticks, ih, ticks]

/-- While it waits, the processor does nothing else. -/
theorem ticks_of_waits {n : Nat} (h : n ≤ c.remaining) :
    c.ticks bus n = (.ok (), { c with remaining := c.remaining - n }, bus) := by
  induction n with
  | zero => rfl
  | succ n ih =>
    have hr : c.remaining - n ≠ 0 := by omega
    rw [ticks_succ_of_ok (ih (Nat.le_of_succ_le h)), tick, if_pos hr]
    rfl

/-- What a cycle does that finds the processor ready and no interrupt requested. -/
theorem tick_of_ready (quiet : Bus.irqLine bus = false) (ready : c.remaining = 0) :
    c.tick bus =
      match c.step bus with
      | (.ok n, c, bus) => (.ok (), { c with remaining := c.remaining + n - 1 }, bus)
      | (.error fault, c, bus) => (.error fault, c, bus) := by
  have ht : ¬ c.takesIrq bus = true := by
    rw [takesIrq, quiet, Bool.false_and]
    exact Bool.false_ne_true
  unfold tick
  exact (if_neg (Decidable.not_not.2 ready)).trans (if_neg ht)

/-- **The cycles of an instruction do what the instruction does.** -/
theorem ticks_of_step (quiet : Bus.irqLine bus = false) (ready : c.remaining = 0) {n : Nat}
    (h : c.step bus = (.ok n, d, bus')) :
    c.ticks bus n = (.ok (), d, bus') ∧ d.remaining = 0 := by
  obtain ⟨fault, hs⟩ | ⟨m, r, hm, hs⟩ := step_cases c bus
  · rw [h] at hs
    cases hs
  · rw [h] at hs
    obtain ⟨hn, hd⟩ := Prod.mk.inj hs
    obtain rfl := Except.ok.inj hn
    obtain rfl := (Prod.mk.inj hd).1
    -- the first cycle carries the instruction out, and the others are waited for
    have h₁ : c.ticks bus 1 = (.ok (), { c with
        registers := r, remaining := c.remaining + n - 1, total := c.total + n }, bus') := by
      rw [ticks_succ_of_ok rfl, tick_of_ready quiet ready, h]
    have hn : n = 1 + (n - 1) := by omega
    have hz : c.remaining + n - 1 - (n - 1) = c.remaining := by omega
    refine ⟨?_, ready⟩
    rw [hn, ticks_add h₁, ticks_of_waits (by dsimp only; omega)]
    dsimp only
    rw [hz, ← hn]

/-- **The cycles of instructions do what the instructions do.** -/
theorem ticks_of_steps (quiet : ∀ bus : β, Bus.irqLine bus = false) (ready : c.remaining = 0)
    {k cost : Nat} (h : c.steps bus k = (.ok cost, d, bus')) :
    c.ticks bus cost = (.ok (), d, bus') ∧ d.remaining = 0 := by
  induction k generalizing cost d bus' with
  | zero =>
    cases h
    exact ⟨rfl, ready⟩
  | succ k ih =>
    rcases hk : c.steps bus k with ⟨fault | m, e, bus₁⟩
    · simp only [steps, hk] at h
      cases h
    · obtain ⟨ht, hr⟩ := ih hk
      rcases hs : e.step bus₁ with ⟨fault | n, f, bus₂⟩
      · simp only [steps, hk, hs] at h
        cases h
      · simp only [steps, hk, hs] at h
        cases h
        rw [ticks_add ht]
        exact ticks_of_step (quiet bus₁) hr hs

/-- An instruction that stops the processor stops it in the cycle in which it would have begun. -/
theorem ticks_of_stops (quiet : ∀ bus : β, Bus.irqLine bus = false) (ready : c.remaining = 0)
    {k cost : Nat} (h : c.steps bus k = (.ok cost, d, bus')) {fault : Fault}
    (hs : (d.step bus').1 = .error fault) :
    c.ticks bus (cost + 1) = (.error fault, d, (d.step bus').2.2) ∧
      c.steps bus (k + 1) = (.error fault, d, (d.step bus').2.2) := by
  obtain ⟨ht, hr⟩ := ticks_of_steps quiet ready h
  obtain ⟨fault', e⟩ | ⟨n, r, _, e⟩ := step_cases d bus'
  · rw [e] at hs
    obtain rfl := Except.error.inj hs
    rw [ticks_succ_of_ok ht, tick_of_ready (quiet bus') hr, steps_succ_of_ok h, e]
    exact ⟨rfl, rfl⟩
  · rw [e] at hs
    cases hs

/-- Instructions do the same on related buses. -/
theorem steps_alike {R : β → γ → Prop} (S : Simulation R) {b : β} {b' : γ} (h : R b b') (c : Cpu)
    (k : Nat) : AlikeTwo R (c.steps b k) (c.steps b' k) := by
  induction k with
  | zero => exact .intro _ _ h
  | succ k ih =>
    obtain ⟨e, d, b₁, b₁', hb, hb', h₁⟩ := ih
    cases e with
    | error fault =>
      simp only [steps, hb, hb']
      exact .intro _ _ h₁
    | ok cost =>
      obtain ⟨e, f, b₂, b₂', hs, hs', h₂⟩ := step_alike S h₁ d
      rw [steps_succ_of_ok hb, steps_succ_of_ok hb', hs, hs']
      cases e with
      | error fault => exact .intro _ _ h₂
      | ok n => exact .intro _ _ h₂

/-- **Execution cycle by cycle refines execution instruction by instruction.**  On a bus that never
requests an interrupt let a processor that is ready carry out `k` instructions that cost `cost`.
Then `cost` cycles lead to the same processor, which is ready again, and to the same bus, and the
accesses made are the same, in the same order.  If the instruction after these stops the processor,
so does the cycle after these, and it leaves the processor as it was. -/
theorem ticks_refine_steps (quiet : ∀ bus : β, Bus.irqLine bus = false) (ready : c.remaining = 0)
    {k cost : Nat} (h : c.steps bus k = (.ok cost, d, bus')) :
    c.ticks bus cost = (.ok (), d, bus') ∧ d.remaining = 0 ∧
      c.accessesOfTicks bus cost = c.accessesOfSteps bus k ∧
      ∀ fault, (d.step bus').1 = .error fault →
        c.ticks bus (cost + 1) = (.error fault, d, (d.step bus').2.2) ∧
          c.accessesOfTicks bus (cost + 1) = c.accessesOfSteps bus (k + 1) := by
  -- the same instructions on the bus with a record
  have quiet' (r : Recorded β) : Bus.irqLine r = false := quiet r.bus
  have hb : ({ bus } : Recorded β).Records bus := rfl
  obtain ⟨e, d', r, b, hr, hb', hrb⟩ := steps_alike Recorded.simulation hb c k
  rw [h] at hb'
  cases hb'
  obtain ⟨ht, hd⟩ := ticks_of_steps quiet ready h
  refine ⟨ht, hd, ?_, ?_⟩
  · rw [accessesOfTicks, accessesOfSteps, (ticks_of_steps quiet' ready hr).1, hr]
  · intro fault hf
    obtain ⟨e, d', r', b, hr', hb', -⟩ := step_alike Recorded.simulation hrb d
    have hf' : (d.step r).1 = .error fault := by
      rw [hb'] at hf
      rw [hr']
      exact hf
    obtain ⟨ht', hs'⟩ := ticks_of_stops quiet' ready hr hf'
    refine ⟨(ticks_of_stops quiet ready h hf).1, ?_⟩
    rw [accessesOfTicks, accessesOfSteps, ht', hs']

/-- Whether two results are the same can be decided. -/
instance decidableEqResult {ε α : Type} [DecidableEq ε] [DecidableEq α] : DecidableEq (Except ε α)
  | .ok a, .ok b => decidable_of_iff (a = b) (by rw [Except.ok.injEq])
  | .error e, .error f => decidable_of_iff (e = f) (by rw [Except.error.injEq])
  | .ok _, .error _ => isFalse nofun
  | .error _, .ok _ => isFalse nofun

/-- `INX` and `STX $04` cost five cycles, and the byte after them is no instruction. -/
theorem ticks_refine_steps_cells :
    let bus : Bus.Cells := ⟨[0xE8, 0x86, 0x04, 0x02, 0x00]⟩
    let bus' : Bus.Cells := ⟨[0xE8, 0x86, 0x04, 0x02, 0x01]⟩
    let d : Cpu := { registers := { x := 1, pc := 3 }, total := 5 }
    ({} : Cpu).steps bus 2 = (.ok 5, d, bus') ∧ ({} : Cpu).ticks bus 5 = (.ok (), d, bus') ∧
      ({} : Cpu).accessesOfTicks bus 5 =
        [.read 0 0xE8, .read 1 0x86, .read 2 0x04, .write 4 0x01] ∧
      ({} : Cpu).ticks bus 6 = (.error (.invalidOpcode 0x02 3), d, bus') := by
  intro bus bus' d
  have h : ({} : Cpu).steps bus 2 = (.ok 5, d, bus') := by decide +kernel
  have hf : (d.step bus').1 = .error (.invalidOpcode 0x02 3) := by decide +kernel
  have hb : (d.step bus').2.2 = bus' := by decide +kernel
  have ha : ({} : Cpu).accessesOfSteps bus 2 =
      [.read 0 0xE8, .read 1 0x86, .read 2 0x04, .write 4 0x01] := by decide +kernel
  clear_value bus bus' d
  obtain ⟨ht, -, hr, hn⟩ := ticks_refine_steps (fun _ => rfl) rfl h
  obtain ⟨hstop, -⟩ := hn _ hf
  rw [hb] at hstop
  exact ⟨h, ht, hr.trans ha, hstop⟩

end Cpu
end Famicom
