/-
# What a run of a frame does

`Console.runFrame` runs cycles until a frame is ready.  The raster sees to it that this happens: the
vertical blank comes nearer by three dots with every cycle, whatever the program does, and is never
further away than a frame.  So the run ends within the cycles of a frame
(`Console.InFrame.cycles_runFrame_le`), and the next one takes as many.

A frame is ready from the vertical blank until the run that waits for it takes note of it.  If the
vertical blank has started while the console was run in another way, nobody has
(`Console.InFrame.hasLeftover_after`): then the next run finds a frame ready after its first cycle,
takes it for its own and ends, though no vertical blank has started in it.  In every other run
exactly one starts (`Console.InFrame.runFrame_spec`).
-/

import Famicom.Proofs.Board.Blank
import Famicom.Proofs.Console.Lockstep
import Famicom.Proofs.Console.Reachable

namespace Famicom
namespace Console

open Ppu (dotsPerFrame)

/-! ### A frame as a loop of cycles -/

variable {c : Console}

/-- A frame whose first cycle stops is that cycle. -/
theorem runFrame_of_error {c' : Console} {f : Cpu.Fault} (hc : c.cycle = (.error f, c')) :
    c.runFrame = { console := c', cycles := 1, fault? := some (.cpu f) } := by
  unfold runFrame
  rw [Run.cycle_of_error hc]
  unfold Run.andWhile
  rfl

/-- A frame whose first cycle succeeds goes on until the signal, and is counted only if it ends as
it should. -/
theorem runFrame_of_ok {c' : Console} {r : Run} (hc : c.cycle = (.ok (), c'))
    (h : cycleWhile awaitsFrame frameBound 1 c' = r) :
    c.runFrame =
      { r with console := if r.fault? = none then r.console.finishFrame else r.console } := by
  unfold runFrame
  rw [Run.cycle_of_ok hc, Run.andWhile_of_none, Nat.zero_add, h]
  obtain ⟨d, n, _ | f⟩ := r
  · rfl
  · rfl

/-- **How a run of a frame ends**: after some cycles that leave no frame ready there is one more,
after which a frame is ready, unless the bound has been met or the processor has stopped. -/
theorem runFrame_cases (c : Console) :
    ∃ k, c.runFrame.cycles = k + 1 ∧ c.Waits k ∧
      ((c.runFrame.fault? = none ∧ (c.after (cycles (k + 1))).awaitsFrame = false ∧
          c.runFrame.console = (c.after (cycles (k + 1))).finishFrame) ∨
        (c.runFrame.fault? = some .outOfCycles ∧ k = frameBound) ∨
        ∃ f, c.runFrame.fault? = some (.cpu f) ∧ (c.after (cycles k)).cycle.1 = .error f) := by
  rcases hc : c.cycle with ⟨f | u, c'⟩
  · have hw : c.Waits 0 := fun j hj hk => absurd (Nat.lt_of_lt_of_le hj hk) (Nat.lt_irrefl 0)
    rw [runFrame_of_error hc]
    exact ⟨0, rfl, hw, .inr (.inr ⟨f, rfl, by rw [after_cycles_zero, hc]⟩)⟩
  · have hc' (j : Nat) : c.after (cycles (j + 1)) = c'.after (cycles j) := by
      rw [after_cycles_succ, hc]
    obtain ⟨k, hn, hk, hj, he⟩ := cycleWhile_cases awaitsFrame frameBound 1 c'
    have hw : c.Waits k := by
      intro j hj₀ hjk
      obtain ⟨i, rfl⟩ := Nat.exists_eq_add_one_of_ne_zero (Nat.ne_of_gt hj₀)
      rw [hc']
      exact hj i hjk
    rw [runFrame_of_ok hc rfl]
    generalize cycleWhile awaitsFrame frameBound 1 c' = r at hn hk he ⊢
    obtain ⟨d, n, fault?⟩ := r
    obtain rfl : d = c'.after (cycles k) := hk
    obtain rfl : n = 1 + k := hn
    refine ⟨k, Nat.add_comm 1 k, hw, ?_⟩
    cases he with
    | done h => exact .inl ⟨rfl, by rwa [hc'], by rw [hc']; rfl⟩
    | outOfCycles h => exact .inr (.inl ⟨rfl, rfl⟩)
    | stopped h => exact .inr (.inr ⟨_, rfl, by rwa [hc']⟩)

/-- If a run of a frame ends as it should, it ends when a frame is ready. -/
theorem runFrame_of_fault?_none (hf : c.runFrame.fault? = none) :
    ∃ k, c.runFrame.cycles = k + 1 ∧ c.Waits k ∧
      (c.after (cycles (k + 1))).awaitsFrame = false ∧
      c.runFrame.console = (c.after (cycles (k + 1))).finishFrame := by
  obtain ⟨k, hn, hw, ⟨-, hr, hc⟩ | ⟨hf', -⟩ | ⟨f, hf', -⟩⟩ := c.runFrame_cases
  · exact ⟨k, hn, hw, hr, hc⟩
  · rw [hf'] at hf
    cases hf
  · rw [hf'] at hf
    cases hf

/-! ### How long a frame takes

The loop waits for a signal that the raster raises once in a frame, so it takes as many cycles as
the raster needs to come there, unless the signal was up before. -/

/-- **The cycles in which no frame gets ready are fewer than a frame has.** -/
theorem InFrame.le_of_waits {k : Nat} (h : c.InFrame) (hw : c.Waits k) : k ≤ 29780 := by
  obtain ⟨_, _, _, hd⟩ := h.scan hw
  have hl : c.untilBlank ≤ 89342 := Ppu.Raster.untilBlank_le _
  have hp : 0 < (c.after (cycles k)).untilBlank := Ppu.Raster.untilBlank_pos _
  omega

/-- So the bound of the loop is not met while no frame gets ready. -/
theorem InFrame.ne_frameBound_of_waits {k : Nat} (h : c.InFrame) (hw : c.Waits k) :
    k ≠ frameBound := by
  have hk := h.le_of_waits hw
  rintro rfl
  exact absurd hk (by decide)

/-- A frame takes the cycles in which none gets ready and the one in which it does, 29781 at
most. -/
theorem InFrame.cycles_runFrame_le (h : c.InFrame) : c.runFrame.cycles ≤ 29781 := by
  obtain ⟨k, hn, hw, -⟩ := c.runFrame_cases
  rw [hn]
  exact Nat.succ_le_succ (h.le_of_waits hw)

/-- Whether a frame is ready that nobody has taken note of, while the vertical blank does not start
in the next cycle. -/
def hasLeftover (c : Console) : Bool := !c.awaitsFrame && decide (3 < c.untilBlank)

/-- **What a run of a frame does that ends as it should.**  If it finds a frame left over it ends
after one cycle, in which no vertical blank starts.  If not, one vertical blank starts, in the last
of its cycles. -/
theorem InFrame.runFrame_spec (h : c.InFrame) (hf : c.runFrame.fault? = none) :
    ∃ n, c.runFrame.cycles = n ∧ c.runFrame.console = (c.after (cycles n)).finishFrame ∧
      ((c.hasLeftover = true ∧ n = 1 ∧ (c.events (cycles n)).count .blankStart = 0 ∧
          (c.after (cycles n)).untilBlank + 3 ≤ c.untilBlank) ∨
        (c.hasLeftover = false ∧ (c.events (cycles n)).count .blankStart = 1 ∧
          dotsPerFrame < (c.after (cycles n)).untilBlank + 3 ∧
          ((c.after (cycles n)).untilBlank + 3 * n = dotsPerFrame + c.untilBlank ∨
            (c.after (cycles n)).untilBlank + 3 * n + 1 = dotsPerFrame + c.untilBlank))) := by
  obtain ⟨k, hn, hw, hr, hc⟩ := runFrame_of_fault?_none hf
  obtain ⟨hi, hb, ha, hd⟩ := h.scan hw
  have hp : 0 < (c.after (cycles k)).untilBlank := Ppu.Raster.untilBlank_pos _
  refine ⟨k + 1, hn, hc, ?_⟩
  rw [after_cycles_succ'] at hr
  rw [after_cycles_succ', events_cycles_succ', List.count_append, hb, hasLeftover]
  obtain ⟨hl, h₀, hs, hu⟩ | ⟨hl, h₀, hs, hu⟩ := hi.cycle_cases
  · -- a frame was ready before the last cycle, so that is the first
    have hk : k = 0 := by
      refine Nat.eq_zero_of_not_pos fun hk => ?_
      rw [hs, hw k hk (Nat.le_refl k)] at hr
      cases hr
    subst hk
    rw [after_cycles_zero] at hs hl h₀ hu hr ⊢
    rw [← hs, hr, decide_eq_true hl, h₀]
    exact .inl ⟨rfl, rfl, rfl, by omega⟩
  · -- a frame that was left over would have ended the run before the vertical blank
    have hn : (!c.awaitsFrame && decide (3 < c.untilBlank)) = false := by
      cases k with
      | zero =>
        have hl : c.untilBlank ≤ 3 := hl
        rw [decide_eq_false (Nat.not_lt.2 hl)]
        exact Bool.and_false _
      | succ k =>
        rw [ha (Nat.succ_pos k)]
        rfl
    rw [hn, h₀]
    exact .inr ⟨rfl, rfl, by omega, by omega⟩

/-- The dots of a run that finds no frame left over are those until the vertical blank has started,
but for one that may be left out, and at most two more. -/
theorem InFrame.three_mul_cycles_runFrame (h : c.InFrame) (hf : c.runFrame.fault? = none)
    (hl : c.hasLeftover = false) :
    c.untilBlank ≤ 3 * c.runFrame.cycles + 1 ∧ 3 * c.runFrame.cycles ≤ c.untilBlank + 2 := by
  obtain ⟨n, hn, -, ⟨hl', -⟩ | ⟨-, -, hb, hd⟩⟩ := h.runFrame_spec hf
  · rw [hl] at hl'
    cases hl'
  · have hle : (c.after (cycles n)).untilBlank ≤ dotsPerFrame := Ppu.Raster.untilBlank_le _
    rw [hn]
    omega

/-- After a run of a frame none is ready. -/
theorem hasLeftover_finishFrame (c : Console) : c.finishFrame.hasLeftover = false := rfl

/-- A cycle counts no frame. -/
theorem frames_cycle (c : Console) : c.cycle.2.frames = c.frames := by rw [logCycle_eq]

/-- Neither do any number of them. -/
theorem frames_after_cycles (c : Console) (n : Nat) : (c.after (cycles n)).frames = c.frames := by
  induction n with
  | zero => rfl
  | succ n ih => rw [after_cycles_succ', frames_cycle, ih]

/-- The processor waits at most a cycle less for every cycle that passes. -/
theorem remaining_after_cycles (c : Console) (n : Nat) :
    c.cpu.remaining ≤ (c.after (cycles n)).cpu.remaining + n := by
  induction n with
  | zero => exact Nat.le_refl _
  | succ n ih =>
    have := (c.after (cycles n)).remaining_cycle
    rw [after_cycles_succ']
    omega

/-- A processor that waits for as long as a frame lasts does not stop before its end. -/
theorem InFrame.runFrame_of_waits (h : c.InFrame) (hr : 29781 ≤ c.cpu.remaining) :
    c.runFrame.fault? = none ∧ c.cpu.remaining ≤ c.runFrame.console.cpu.remaining + 29781 := by
  obtain ⟨k, -, hw, ⟨hf, -, hc⟩ | ⟨-, hk⟩ | ⟨f, -, hf⟩⟩ := c.runFrame_cases
  · have hk := h.le_of_waits hw
    have hr' := c.remaining_after_cycles (k + 1)
    rw [hc]
    exact ⟨hf, Nat.le_trans hr' (Nat.add_le_add_left (Nat.succ_le_succ hk) _)⟩
  · exact absurd hk (h.ne_frameBound_of_waits hw)
  · have hk := h.le_of_waits hw
    have := c.remaining_after_cycles k
    rw [(succeeds_of_waits (by omega)).1] at hf
    cases hf

/-- **A run of a frame ends, within the cycles of a frame**, whatever the program does: the bound
of the loop is not met.  The run that follows takes 29780 or 29781 cycles, if no frame was left
over before the first; if one was, the first run takes one cycle, and the second what is left of
the frame. -/
theorem cycles_runFrame (c : Console) (h : c.Reachable) :
    c.runFrame.cycles ≤ 29781 ∧ c.runFrame.fault? ≠ some .outOfCycles ∧
      (c.runFrame.fault? = none → c.runFrame.console.runFrame.fault? = none →
        if c.hasLeftover then
          c.runFrame.cycles = 1 ∧ 3 * c.runFrame.console.runFrame.cycles < c.untilBlank
        else
          c.runFrame.console.runFrame.cycles = 29780 ∨
            c.runFrame.console.runFrame.cycles = 29781) := by
  have hi := h.inFrame
  refine ⟨?_, ?_, ?_⟩
  · exact hi.cycles_runFrame_le
  · obtain ⟨k, hn, hw, ⟨hf, -⟩ | ⟨hf, hk⟩ | ⟨f, hf, -⟩⟩ := c.runFrame_cases
    · rw [hf]
      exact fun h => nomatch h
    · exact absurd hk (hi.ne_frameBound_of_waits hw)
    · rw [hf]
      exact fun h => nomatch h
  · intro hf hf'
    obtain ⟨n, hn, hc, hcases⟩ := hi.runFrame_spec hf
    have hu : c.runFrame.console.untilBlank = (c.after (cycles n)).untilBlank := by
      rw [hc]
      rfl
    have hl : c.runFrame.console.hasLeftover = false := by
      rw [hc]
      exact hasLeftover_finishFrame _
    obtain ⟨hd, hd'⟩ := h.runFrame.inFrame.three_mul_cycles_runFrame hf' hl
    rw [hu] at hd hd'
    obtain ⟨hl₀, h₁, -, hs⟩ | ⟨hl₀, -, hb, -⟩ := hcases
    · rw [hl₀, if_pos rfl, hn]
      exact ⟨h₁, by omega⟩
    · have hle : (c.after (cycles n)).untilBlank ≤ dotsPerFrame := Ppu.Raster.untilBlank_le _
      have hf : dotsPerFrame = 89342 := rfl
      rw [hl₀, if_neg Bool.false_ne_true]
      omega

/-- Two frames of a console whose processor is held up. -/
theorem cycles_runFrame_held :
    held.Reachable ∧ held.runFrame.fault? = none ∧ held.runFrame.console.runFrame.fault? = none ∧
      (held.runFrame.console.runFrame.cycles = 29780 ∨
        held.runFrame.console.runFrame.cycles = 29781) := by
  have h := reachable_held
  obtain ⟨hf, hr⟩ := h.inFrame.runFrame_of_waits (by rw [remaining_held]; decide)
  rw [remaining_held] at hr
  obtain ⟨hf', -⟩ := h.runFrame.inFrame.runFrame_of_waits (by omega)
  have hl : held.hasLeftover = false := rfl
  have hn := (cycles_runFrame held h).2.2 hf hf'
  rw [hl] at hn
  exact ⟨h, hf, hf', hn⟩

/-! ### How often the vertical blank starts -/

/-- **Who runs the cycles of a frame one by one leaves a frame over**, since the vertical blank has
started and nobody has taken note. -/
theorem InFrame.hasLeftover_after (h : c.InFrame) (hf : c.runFrame.fault? = none)
    (hl : c.hasLeftover = false) : (c.after (cycles c.runFrame.cycles)).hasLeftover = true := by
  obtain ⟨k, hk, -, hr, -⟩ := runFrame_of_fault?_none hf
  obtain ⟨n, hn, -, ⟨hl', -⟩ | ⟨-, -, hu, -⟩⟩ := h.runFrame_spec hf
  · rw [hl] at hl'
    cases hl'
  · have hd : dotsPerFrame = 89342 := rfl
    rw [← hn] at hu
    rw [hasLeftover, hk, hr, ← hk, decide_eq_true (by omega)]
    rfl

/-- **What a run of a frame finishes** that ends as it should: it runs cycles, takes note of a
frame and counts it.  In these cycles the vertical blank has started once; but if a frame was left
over it has not started at all. -/
theorem count_blankStart_runFrame (c : Console) (h : c.Reachable)
    (hf : c.runFrame.fault? = none) :
    c.runFrame.console = (c.after (cycles c.runFrame.cycles)).finishFrame ∧
      c.runFrame.console.frames = c.frames + 1 ∧
      (c.events (cycles c.runFrame.cycles)).count .blankStart = if c.hasLeftover then 0 else 1 := by
  obtain ⟨n, hn, hc, hcases⟩ := h.inFrame.runFrame_spec hf
  have hfr : c.runFrame.console.frames = c.frames + 1 := by
    rw [hc, ← frames_after_cycles c n]
    rfl
  rw [hn]
  refine ⟨hc, hfr, ?_⟩
  obtain ⟨hl, -, hb, -⟩ | ⟨hl, hb, -⟩ := hcases
  · rw [hl, hb]
    rfl
  · rw [hl, hb]
    rfl

/-- A run of a frame after one whose cycles were run one by one: it counts a frame, and no vertical
blank starts in it. -/
theorem count_blankStart_runFrame_leftover :
    let c := held.after (cycles held.runFrame.cycles)
    c.Reachable ∧ c.runFrame.fault? = none ∧ c.runFrame.console.frames = c.frames + 1 ∧
      (c.events (cycles c.runFrame.cycles)).count .blankStart = 0 := by
  have h := reachable_held
  obtain ⟨hf, -⟩ := h.inFrame.runFrame_of_waits (by rw [remaining_held]; decide)
  have hl := h.inFrame.hasLeftover_after hf rfl
  have hc := h.after (cycles held.runFrame.cycles)
  have hr := remaining_after_cycles held held.runFrame.cycles
  have hn := h.inFrame.cycles_runFrame_le
  rw [remaining_held] at hr
  obtain ⟨hf', -⟩ := hc.inFrame.runFrame_of_waits (by omega)
  obtain ⟨-, hfr, hb⟩ := count_blankStart_runFrame _ hc hf'
  rw [hl] at hb
  exact ⟨hc, hf', hfr, hb⟩

end Console
end Famicom
