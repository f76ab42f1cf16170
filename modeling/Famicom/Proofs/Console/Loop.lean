/-
# Loops of cycles

A run that waits for a part of the machine is a loop of cycles.  It ends at the first console that
is not to go on, unless the processor stops or the loop meets its bound, in which case the run
says so (`Console.cycleWhile_cases`).  So what such a run leaves is what so many cycles leave
(`Console.RunsTo`), and a condition that cycles keep is kept by every run (`Console.Kept`).
-/

import Famicom.Console.Run
import Famicom.Proofs.Console.Events

namespace Famicom
namespace Console

/-- So many machine cycles, with nothing between them. -/
def cycles (n : Nat) : List Call := List.replicate n .cycle

/-- A cycle, and the others. -/
theorem cycles_succ (n : Nat) : cycles (n + 1) = .cycle :: cycles n := List.replicate_succ

/-- Cycles in two parts. -/
theorem cycles_add (m n : Nat) : cycles (m + n) = cycles m ++ cycles n :=
  (List.replicate_append_replicate ..).symm

/-- No cycle changes nothing. -/
theorem after_cycles_zero (c : Console) : c.after (cycles 0) = c := rfl

/-- So many cycles and one begin with one. -/
theorem after_cycles_succ (c : Console) (n : Nat) :
    c.after (cycles (n + 1)) = c.cycle.2.after (cycles n) := by
  rw [cycles_succ, after_cons, call]

/-- A run of cycles can be interrupted and gone on with. -/
theorem after_cycles_add (c : Console) (m n : Nat) :
    c.after (cycles (m + n)) = (c.after (cycles m)).after (cycles n) := by
  rw [cycles_add, after_append]

/-- So many cycles and one end with one. -/
theorem after_cycles_succ' (c : Console) (n : Nat) :
    c.after (cycles (n + 1)) = (c.after (cycles n)).cycle.2 :=
  after_cycles_add c n 1

/-- The events of so many cycles and one begin with those of the first. -/
theorem events_cycles_succ (c : Console) (n : Nat) :
    c.events (cycles (n + 1)) = c.eventsOf .cycle ++ c.cycle.2.events (cycles n) := by
  rw [cycles_succ, events, call]

/-- The events of two runs of cycles, one after the other. -/
theorem events_cycles_add (c : Console) (m n : Nat) :
    c.events (cycles (m + n)) = c.events (cycles m) ++ (c.after (cycles m)).events (cycles n) := by
  rw [cycles_add, events_append]

/-- The events of so many cycles and one end with those of the last. -/
theorem events_cycles_succ' (c : Console) (n : Nat) :
    c.events (cycles (n + 1)) = c.events (cycles n) ++ (c.after (cycles n)).eventsOf .cycle := by
  rw [cycles, List.replicate_succ', events_concat]
  rfl

section Loop

variable {goesOn : Console → Bool} {bound n : Nat} {c : Console}

/-- At its bound a loop stops, with a complaint if the console is to go on. -/
theorem cycleWhile_zero (goesOn : Console → Bool) (n : Nat) (c : Console) :
    cycleWhile goesOn 0 n c =
      { console := c, cycles := n, fault? := if goesOn c then some .outOfCycles else none } :=
  rfl

/-- A loop ends at once at a console that is not to go on. -/
theorem cycleWhile_of_not (h : goesOn c = false) :
    cycleWhile goesOn (bound + 1) n c = { console := c, cycles := n } := by
  show (if goesOn c then _ else _) = _
  rw [h]
  rfl

/-- A cycle that succeeds is counted, and the loop goes on after it. -/
theorem cycleWhile_of_ok {c' : Console} (h : goesOn c = true) (hc : c.cycle = (.ok (), c')) :
    cycleWhile goesOn (bound + 1) n c = cycleWhile goesOn bound (n + 1) c' := by
  show (if goesOn c then _ else _) = _
  rw [if_pos h, hc]

/-- A cycle in which the processor stops is counted, and ends the loop. -/
theorem cycleWhile_of_error {c' : Console} {f : Cpu.Fault} (h : goesOn c = true)
    (hc : c.cycle = (.error f, c')) : cycleWhile goesOn (bound + 1) n c =
      { console := c', cycles := n + 1, fault? := some (.cpu f) } := by
  show (if goesOn c then _ else _) = _
  rw [if_pos h, hc]

/-! ### How a loop ends -/

/-- How a loop of cycles can end after so many: at a console that is not to go on, at its bound, or
in a cycle in which the processor stops. -/
inductive Ending (goesOn : Console → Bool) (bound : Nat) (c : Console) :
    Nat → Option Fault → Prop where
  | done {k : Nat} (h : goesOn (c.after (cycles k)) = false) : Ending goesOn bound c k none
  | outOfCycles (h : goesOn (c.after (cycles bound)) = true) :
      Ending goesOn bound c bound (some .outOfCycles)
  | stopped {k : Nat} {f : Cpu.Fault} (h : (c.after (cycles k)).cycle.1 = .error f) :
      Ending goesOn bound c (k + 1) (some (.cpu f))

/-- A loop that begins with a cycle ends as it does after that cycle, one cycle later. -/
theorem Ending.succ {k : Nat} {fault? : Option Fault} (h : Ending goesOn bound c.cycle.2 k fault?) :
    Ending goesOn (bound + 1) c (k + 1) fault? := by
  cases h with
  | done h => exact .done (by rwa [after_cycles_succ])
  | outOfCycles h => exact .outOfCycles (by rwa [after_cycles_succ])
  | stopped h => exact .stopped (by rwa [after_cycles_succ])

/-- **Where a loop of cycles ends.**  Before each of its cycles the console was to go on. -/
theorem cycleWhile_cases (goesOn : Console → Bool) (bound n : Nat) (c : Console) :
    ∃ k, (cycleWhile goesOn bound n c).cycles = n + k ∧
      (cycleWhile goesOn bound n c).console = c.after (cycles k) ∧
      (∀ j < k, goesOn (c.after (cycles j)) = true) ∧
      Ending goesOn bound c k (cycleWhile goesOn bound n c).fault? := by
  have none_lt (P : Nat → Prop) : ∀ j < 0, P j := fun j hj => absurd hj (Nat.not_lt_zero j)
  induction bound generalizing n c with
  | zero =>
    rw [cycleWhile_zero]
    refine ⟨0, rfl, (after_cycles_zero c).symm, none_lt _, ?_⟩
    cases hg : goesOn c with
    | false => exact .done hg
    | true => exact .outOfCycles hg
  | succ bound ih =>
    cases hg : goesOn c with
    | false =>
      rw [cycleWhile_of_not hg]
      exact ⟨0, rfl, (after_cycles_zero c).symm, none_lt _, .done hg⟩
    | true =>
      have goes_on (k : Nat) (h : ∀ j < k, goesOn (c.cycle.2.after (cycles j)) = true) :
          ∀ j < k + 1, goesOn (c.after (cycles j)) = true := by
        intro j hj
        cases j with
        | zero => exact hg
        | succ j =>
          rw [after_cycles_succ]
          exact h j (Nat.lt_of_succ_lt_succ hj)
      rcases hc : c.cycle with ⟨f | u, c'⟩
      · rw [cycleWhile_of_error hg hc]
        refine ⟨1, rfl, ?_, goes_on 0 (none_lt _), .stopped ?_⟩
        · rw [after_cycles_succ, hc, after_cycles_zero]
        · rw [after_cycles_zero, hc]
      · obtain ⟨k, hn, hk, hj, he⟩ := ih (n + 1) c'
        rw [cycleWhile_of_ok hg hc]
        refine ⟨k + 1, ?_, ?_, goes_on k ?_, .succ ?_⟩
        · rw [hn, Nat.add_assoc, Nat.add_comm 1]
        · rw [hk, after_cycles_succ, hc]
        · rwa [hc]
        · rwa [hc]

/-- If a loop of cycles ends as it should, it ends at the first console that is not to go on. -/
theorem cycleWhile_spec (h : (cycleWhile goesOn bound n c).fault? = none) :
    ∃ k, (cycleWhile goesOn bound n c).cycles = n + k ∧
      (cycleWhile goesOn bound n c).console = c.after (cycles k) ∧
      (∀ j < k, goesOn (c.after (cycles j)) = true) ∧
      goesOn (c.after (cycles k)) = false := by
  obtain ⟨k, hn, hk, hj, he⟩ := cycleWhile_cases goesOn bound n c
  rw [h] at he
  cases he with
  | done hs => exact ⟨k, hn, hk, hj, hs⟩

/-- A cycle more, after a run that ended as it should, is counted. -/
theorem Run.cycle_of_ok {c' : Console} (h : c.cycle = (.ok (), c')) :
    Run.cycle { console := c, cycles := n } = { console := c', cycles := n + 1 } := by
  unfold Run.cycle
  dsimp only
  rw [h]

/-- If the processor stops in it, the run ends there. -/
theorem Run.cycle_of_error {c' : Console} {f : Cpu.Fault} (h : c.cycle = (.error f, c')) :
    Run.cycle { console := c, cycles := n } =
      { console := c', cycles := n + 1, fault? := some (.cpu f) } := by
  unfold Run.cycle
  dsimp only
  rw [h]

/-- After a run that ended as it should, a loop counts on from its cycles. -/
theorem Run.andWhile_of_none (goesOn : Console → Bool) (bound n : Nat) (c : Console) :
    Run.andWhile { console := c, cycles := n } goesOn bound = cycleWhile goesOn bound n c :=
  rfl

/-- A run that is to go on from another ends as it should only if that one has. -/
theorem Run.fault?_andWhile {r : Run} (h : (r.andWhile goesOn bound).fault? = none) :
    r.fault? = none ∧
      r.andWhile goesOn bound = cycleWhile goesOn bound r.cycles r.console := by
  obtain ⟨c, n, _ | f⟩ := r
  · exact ⟨rfl, rfl⟩
  · cases h

/-- One more cycle ends as it should only if the run before has, and the cycle succeeds. -/
theorem Run.fault?_cycle {r : Run} (h : r.cycle.fault? = none) :
    r.fault? = none ∧ r.console.cycle.1 = .ok () ∧ r.cycle.cycles = r.cycles + 1 ∧
      r.cycle.console = r.console.cycle.2 := by
  obtain ⟨c, n, _ | f⟩ := r
  · rcases hc : c.cycle with ⟨f | u, c'⟩
    · unfold Run.cycle at h
      dsimp only at h
      rw [hc] at h
      cases h
    · unfold Run.cycle
      dsimp only
      rw [hc]
      exact ⟨rfl, rfl, rfl, rfl⟩
  · cases h

/-! ### A loop is so many cycles -/

/-- A run leaves what some number of cycles leaves. -/
def RunsTo (c : Console) (r : Run) : Prop := ∃ n, r.console = c.after (cycles n)

/-- A loop of cycles does nothing but cycles. -/
theorem runsTo_cycleWhile (goesOn : Console → Bool) (bound n : Nat) (c : Console) :
    c.RunsTo (cycleWhile goesOn bound n c) := by
  obtain ⟨k, _, hk, _⟩ := cycleWhile_cases goesOn bound n c
  exact ⟨k, hk⟩

/-- A run with a cycle more is still nothing but cycles, also where it had stopped before. -/
theorem RunsTo.cycle {r : Run} (h : c.RunsTo r) : c.RunsTo r.cycle := by
  obtain ⟨k, hk⟩ := h
  obtain ⟨d, n, _ | f⟩ := r
  · refine ⟨k + 1, ?_⟩
    rw [after_cycles_succ', ← hk]
    unfold Run.cycle
    rcases hc : d.cycle with ⟨f | u, d'⟩
    · dsimp only
      rw [hc]
    · dsimp only
      rw [hc]
  · exact ⟨k, hk⟩

/-- A run that a loop goes on with is still nothing but cycles. -/
theorem RunsTo.andWhile {r : Run} (h : c.RunsTo r) (goesOn : Console → Bool) (bound : Nat) :
    c.RunsTo (r.andWhile goesOn bound) := by
  obtain ⟨d, n, _ | f⟩ := r
  · obtain ⟨k, hk⟩ := h
    obtain ⟨m, hm⟩ := runsTo_cycleWhile goesOn bound n d
    refine ⟨k + m, ?_⟩
    rw [after_cycles_add, ← hk]
    exact hm
  · exact h

/-- A step of one instruction is a loop, a cycle and a loop. -/
theorem runsTo_stepInstruction (c : Console) : c.RunsTo c.stepInstruction :=
  ((runsTo_cycleWhile ..).cycle).andWhile ..

end Loop

section Frames

variable {c d : Console} {k : Nat}

-- unfolding the loop over the frames is not to run the first of them
attribute [local irreducible] runFrame

/-- So many frames and one begin with a frame; a fault in it ends them. -/
theorem runFramesFrom_succ (c : Console) (cycles n : Nat) :
    c.runFramesFrom cycles (n + 1) = match c.runFrame with
      | ⟨c, k, none⟩ => c.runFramesFrom (cycles + k) n
      | ⟨c, k, fault⟩ => ⟨c, cycles + k, fault⟩ :=
  rfl

/-- After a frame that ended as it should, the others are run. -/
theorem runFramesFrom_of_ok (h : c.runFrame = ⟨d, k, none⟩) (cycles n : Nat) :
    c.runFramesFrom cycles (n + 1) = d.runFramesFrom (cycles + k) n := by
  rw [runFramesFrom_succ, h]

/-- A fault in the first frame is the fault of them all. -/
theorem runFramesFrom_of_error {f : Fault} (h : c.runFrame = ⟨d, k, some f⟩) (cycles n : Nat) :
    c.runFramesFrom cycles (n + 1) = ⟨d, cycles + k, some f⟩ := by
  rw [runFramesFrom_succ, h]

/-! ### What every cycle keeps -/

/-- A condition that no run breaks: cycles keep it, and taking note of a frame does. -/
structure Kept (P : Console → Prop) : Prop where
  cycle {c : Console} (h : P c) : P c.cycle.2
  finishFrame {c : Console} (h : P c) : P c.finishFrame

namespace Kept

variable {P : Console → Prop}

/-- What cycles keep, a run that is nothing but cycles keeps. -/
theorem runsTo (k : Kept P) {r : Run} (hr : c.RunsTo r) (h : P c) : P r.console := by
  obtain ⟨n, hn⟩ := hr
  rw [hn]
  clear hn
  induction n with
  | zero => exact h
  | succ n ih =>
    rw [after_cycles_succ']
    exact k.cycle ih

/-- A frame keeps what cycles keep, and what counting the frame keeps. -/
theorem runFrame (k : Kept P) (h : P c) : P c.runFrame.console := by
  have hr : c.RunsTo ((Run.cycle { console := c }).andWhile awaitsFrame frameBound) :=
    (RunsTo.cycle ⟨0, rfl⟩).andWhile ..
  have hf := k.runsTo hr h
  unfold Console.runFrame
  generalize (Run.cycle { console := c }).andWhile awaitsFrame frameBound = r at hf ⊢
  obtain ⟨d, n, _ | f⟩ := r
  · exact k.finishFrame hf
  · exact hf

/-- So do any number of frames, by induction. -/
theorem runFramesFrom (k : Kept P) (h : P c) (cycles n : Nat) :
    P (c.runFramesFrom cycles n).console := by
  induction n generalizing c cycles with
  | zero => exact h
  | succ n ih =>
    have hf := k.runFrame h
    rcases hr : c.runFrame with ⟨d, m, _ | f⟩
    · rw [hr] at hf
      rw [runFramesFrom_of_ok hr]
      exact ih hf _
    · rw [hr] at hf
      rw [runFramesFrom_of_error hr]
      exact hf

end Kept

end Frames

end Console
end Famicom
