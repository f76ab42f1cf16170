/-
# What a cycle does to the raster

A machine cycle has three dots.  An NMI may come between them, and the processor, which has its
turn last, may write to any register; but none of this moves the raster or takes note of a frame,
and the mask does not change before the third dot is drawn.  So the three dots are those that the
standing of the picture unit makes by itself (`Console.scanned_logCycle`), and the vertical blank
starts in none of them or in exactly one (`Console.InFrame.cycle_cases`).

In cycles that leave no frame ready the vertical blank does not start, and it comes nearer by three
dots with each (`Console.InFrame.scan`).
-/

import Famicom.Proofs.Console.Loop
import Famicom.Proofs.Console.Standing
import Famicom.Proofs.Ppu.Approach
import Famicom.Proofs.Ppu.VerticalBlank

namespace Famicom

open Ppu (Standing dotsPerFrame vblankLine)
open Ppu.Raster (blankPosition)

/-- The vertical blank starts. -/
def Event.blankStart : Event := .dot vblankLine 1

namespace Ppu.Standing

/-- The dot that is to be drawn. -/
def dotEvent (s : Standing) : Event := .dot s.raster.line s.raster.dot

variable {s : Standing}

/-- The dot that starts the vertical blank is the one that is a dot away from it. -/
theorem dotEvent_eq_blankStart (h : s.raster.InFrame) :
    (s.dotEvent == Event.blankStart) = (s.raster.untilBlank == 1) := by
  rw [Bool.eq_iff_iff, beq_iff_eq, beq_iff_eq, h.untilBlank_eq_one_iff, dotEvent, Event.blankStart,
    Event.dot.injEq]

/-- Starting the vertical blank is a matter of the distance alone. -/
theorem startsVblank_eq (h : s.raster.InFrame) :
    s.startsVblank = (s.raster.untilBlank == 1) := by
  rw [Bool.eq_iff_iff, beq_iff_eq, startsVblank_iff, h.untilBlank_eq_one_iff]

/-- A dot leaves the raster inside a frame. -/
theorem inFrame_tick (h : s.raster.InFrame) : s.tick.raster.InFrame := h.advance _

/-- A dot brings the vertical blank a dot nearer, or starts it. -/
theorem approaches_tick (h : s.raster.InFrame) :
    Ppu.Raster.Approaches s.raster.untilBlank s.tick.raster.untilBlank :=
  h.approaches_advance _

/-- A frame is complete once it has been, or when the vertical blank starts. -/
theorem frameReady_tick (s : Standing) : s.tick.frameReady = (s.frameReady || s.startsVblank) := rfl

end Ppu.Standing

namespace Memory.Logged

/-! ### The log of a cycle and the raster

Of the events of a cycle the dots alone are looked at here: they are in the log in the order in
which the raster passes them. -/

/-- **How far the raster has got**: the raster and the frame that is ready are those of a standing,
and the dots in the log, the last one in front, are those given. -/
structure Scanned (s : Standing) (dots : List Event) (l : Logged) : Prop where
  raster : l.standing.raster = s.raster
  frameReady : l.standing.frameReady = s.frameReady
  log : l.log.filter Event.isDot = dots

variable {s : Standing} {dots : List Event} {l : Logged}

/-- What neither the standing nor the log shows does not change what has been scanned. -/
theorem Scanned.seen {l' : Logged} (h : Scanned s dots l) (k : l.standing.Seen l'.standing)
    (hl : l'.log = l.log) : Scanned s dots l' where
  raster := k.raster.trans h.raster
  frameReady := k.frameReady.trans h.frameReady
  log := by rw [hl]; exact h.log

/-- Noting what is not a dot. -/
theorem Scanned.note (h : Scanned s dots l) {e : Event} (he : e.isDot = false) :
    Scanned s dots (l.note e) where
  raster := h.raster
  frameReady := h.frameReady
  log := by
    rw [← h.log]
    exact List.filter_cons_of_neg (by rw [he]; exact Bool.false_ne_true)

/-- A dot adds itself to the dots of the log. -/
theorem filter_tickPpu (l : Logged) :
    l.tickPpu.log.filter Event.isDot = l.standing.dotEvent :: l.log.filter Event.isDot := by
  have hd : (dotEvents l.memory.ppu).filter Event.isDot = [l.standing.dotEvent] := by
    unfold dotEvents
    dsimp only
    split <;> rfl
  rw [tickPpu, List.filter_append, hd]
  rfl

/-- A dot is drawn.  Whether one is left out after it hangs on the mask. -/
theorem Scanned.tickPpu (h : Scanned s dots l) (hm : l.standing.mask = s.mask) :
    Scanned s.tick (s.dotEvent :: dots) l.tickPpu where
  raster := by
    rw [standing_tickPpu, Standing.tick, h.raster, hm]
    rfl
  frameReady := by
    rw [standing_tickPpu, Standing.frameReady_tick, Standing.frameReady_tick, h.frameReady,
      Standing.startsVblank, h.raster]
    rfl
  log := by
    rw [filter_tickPpu, h.log, Standing.dotEvent, h.raster]
    rfl

/-- Taking a request for an NMI passes no dot. -/
theorem Scanned.takeNmi (h : Scanned s dots l) : Scanned s dots l.takeNmi.2 := by
  refine ⟨?_, ?_, h.log⟩
  · rw [standing_takeNmi]
    exact h.raster
  · rw [standing_takeNmi]
    exact h.frameReady

/-- Taking the stolen cycles passes no dot. -/
theorem Scanned.takeStall (h : Scanned s dots l) : Scanned s dots l.takeStall.2 := by
  have hs : Scanned s dots { l with memory := l.memory.takeStall.2 } := by
    refine h.seen (.inl ?_) rfl
    rw [standing, ← memory_takeStall]
    exact standing_takeStall l
  unfold Logged.takeStall
  dsimp only
  split
  · exact hs
  · exact hs.note rfl

/-- A write moves the raster no more than a read does, whatever register it reaches. -/
theorem Scanned.write (h : Scanned s dots l) (address : UInt16) (v : UInt8) :
    Scanned s dots (l.write address v) := by
  have hl : (l.write address v).log.filter Event.isDot = l.log.filter Event.isDot := by
    unfold Logged.write
    dsimp only
    split <;> rfl
  have hs : (l.write address v).standing.raster = l.standing.raster ∧
      (l.write address v).standing.frameReady = l.standing.frameReady := by
    cases ha : reachesPpu address with
    | false =>
      have hs := seen_write_of_not_reachesPpu ha l.memory v
      exact ⟨hs.raster, hs.frameReady⟩
    | true =>
      have hw := standing_write_of_reachesPpu ha l.memory v
      exact ⟨(congrArg Standing.raster hw).trans (Standing.raster_write ..),
        (congrArg Standing.frameReady hw).trans (Standing.frameReady_write ..)⟩
  exact ⟨hs.1.trans h.raster, hs.2.trans h.frameReady, hl.trans h.log⟩

/-- **No access moves the raster.** -/
theorem Scanned.path {l' : Logged} {writes : List (UInt16 × UInt8)} (h : Scanned s dots l)
    (k : Bus.Path l writes l') : Scanned s dots l' := by
  refine k.preserves (P := Scanned s dots) ?_ ?_ h
  · intro l address h
    exact h.seen (seen_read l.memory address) rfl
  · intro l address v h
    exact h.write address v

end Memory.Logged

namespace Console

open Memory (Logged)

/-! ### The three dots of a cycle -/

/-- After the first dot an NMI may be entered, which changes neither the raster nor the mask. -/
theorem scanned_logNmi (c : Console) :
    Logged.Scanned c.standing.tick [c.standing.dotEvent] c.logNmi.2 ∧
      c.logNmi.2.standing.mask = c.standing.mask := by
  have h₀ : Logged.Scanned c.standing [] { memory := c.memory } := ⟨rfl, rfl, rfl⟩
  have h₁ := h₀.tickPpu rfl
  obtain ⟨_, hn⟩ | ⟨_, r, k, hk, hn⟩ := c.logNmi_cases
  · rw [hn]
    exact ⟨h₁, Logged.mask_tickPpu _⟩
  · obtain ⟨hs, hl⟩ := Logged.seen_stackPath hk
    have hm : ({ memory := c.memory } : Logged).tickPpu.takeNmi.2.standing.mask =
        c.standing.mask := by
      rw [Logged.standing_takeNmi]
      exact Logged.mask_tickPpu { memory := c.memory }
    rw [hn]
    exact ⟨(h₁.takeNmi.note rfl).seen hs hl, hs.mask.trans hm⟩

/-- When the processor's turn comes, three dots have been drawn. -/
theorem scanned_logHardware (c : Console) :
    Logged.Scanned c.standing.tick.tick.tick
      [c.standing.tick.tick.dotEvent, c.standing.tick.dotEvent, c.standing.dotEvent]
      c.logHardware.2 := by
  obtain ⟨h₁, hm⟩ := c.scanned_logNmi
  have h₃ := (h₁.tickPpu hm).tickPpu ((Logged.mask_tickPpu _).trans hm)
  rw [logHardware]
  generalize c.logNmi.2.tickPpu.tickPpu = l at h₃ ⊢
  have ha : Logged.Scanned _ _ l.tickApu := h₃.seen (Memory.seen_tickApu l.memory) rfl
  have hb : Logged.Scanned _ _ { l.tickApu with memory := l.tickApu.memory.tickBoard } :=
    ha.seen (.inl rfl) rfl
  exact (hb.note rfl).takeStall

/-- **In a machine cycle three dots are drawn**, those that the standing makes by itself. -/
theorem scanned_logCycle (c : Console) :
    Logged.Scanned c.standing.tick.tick.tick
      [c.standing.tick.tick.dotEvent, c.standing.tick.dotEvent, c.standing.dotEvent]
      c.logCycle.2.2 := by
  obtain ⟨k, ⟨writes, hk, _⟩, hc⟩ := Cpu.tickLogged_path c.logHardware.1 c.logHardware.2
  have hs := c.scanned_logHardware.path hk
  rw [logCycle]
  rcases hc with hc | hc | ⟨n, hc⟩
  · rw [hc]
    exact hs
  · rw [hc]
    exact hs.note rfl
  · rw [hc]
    exact hs.note rfl

/-- In a cycle the raster goes through three dots, whatever the processor does. -/
theorem raster_cycle (c : Console) :
    c.cycle.2.standing.raster = c.standing.tick.tick.tick.raster := by
  rw [standing, memory_cycle]
  exact c.scanned_logCycle.raster

/-- In a cycle a frame is completed by one of its three dots, and by nothing else. -/
theorem frameReady_cycle (c : Console) :
    c.cycle.2.standing.frameReady = c.standing.tick.tick.tick.frameReady := by
  rw [standing, memory_cycle]
  exact c.scanned_logCycle.frameReady

/-- A loop that waits for a frame looks at the signal alone. -/
theorem awaitsFrame_eq (c : Console) : c.awaitsFrame = !c.standing.frameReady := rfl

/-- The raster stands in a frame. -/
def InFrame (c : Console) : Prop := c.standing.raster.InFrame

/-- The dots until the vertical blank has started. -/
def untilBlank (c : Console) : Nat := c.standing.raster.untilBlank

variable {c : Console}

/-- A cycle leaves the raster inside a frame. -/
theorem InFrame.cycle (h : c.InFrame) : c.cycle.2.InFrame := by
  rw [InFrame, raster_cycle]
  exact Standing.inFrame_tick (Standing.inFrame_tick (Standing.inFrame_tick h))

/-- The vertical blank starts in the dots of a cycle that are one away from it. -/
theorem InFrame.count_blankStart (h : c.InFrame) :
    (c.eventsOf .cycle).count .blankStart =
      [c.untilBlank, c.standing.tick.raster.untilBlank,
        c.standing.tick.tick.raster.untilBlank].count 1 := by
  have h₁ : c.standing.tick.raster.InFrame := Standing.inFrame_tick h
  have h₂ : c.standing.tick.tick.raster.InFrame := Standing.inFrame_tick h₁
  have hd : Event.blankStart.isDot = true := rfl
  rw [eventsOf, List.count_reverse, ← List.count_filter hd, c.scanned_logCycle.log]
  simp only [List.count_cons, Standing.dotEvent_eq_blankStart h, Standing.dotEvent_eq_blankStart h₁,
    Standing.dotEvent_eq_blankStart h₂, List.count_nil, untilBlank]
  omega

/-- A frame is ready after a cycle if one was before, or if the vertical blank has started in it. -/
theorem InFrame.awaitsFrame_cycle (h : c.InFrame) :
    c.cycle.2.awaitsFrame =
      (c.awaitsFrame && (c.eventsOf .cycle).count .blankStart == 0) := by
  have h₁ : c.standing.tick.raster.InFrame := Standing.inFrame_tick h
  have h₂ : c.standing.tick.tick.raster.InFrame := Standing.inFrame_tick h₁
  rw [h.count_blankStart, awaitsFrame_eq, awaitsFrame_eq, frameReady_cycle,
    Standing.frameReady_tick, Standing.frameReady_tick, Standing.frameReady_tick,
    Standing.startsVblank_eq h, Standing.startsVblank_eq h₁, Standing.startsVblank_eq h₂]
  simp only [List.count_cons, List.count_nil, untilBlank]
  cases c.standing.frameReady <;> cases c.standing.raster.untilBlank == 1 <;>
    cases c.standing.tick.raster.untilBlank == 1 <;>
    cases c.standing.tick.tick.raster.untilBlank == 1 <;> rfl

/-- **What a cycle does to the distance from the vertical blank**: it does not start and comes three
dots nearer, or four if one is left out; or it starts, and a frame is ready. -/
theorem InFrame.cycle_cases (h : c.InFrame) :
    (3 < c.untilBlank ∧ (c.eventsOf .cycle).count .blankStart = 0 ∧
        c.cycle.2.awaitsFrame = c.awaitsFrame ∧
        (c.cycle.2.untilBlank + 3 = c.untilBlank ∨ c.cycle.2.untilBlank + 4 = c.untilBlank ∧
          c.cycle.2.untilBlank ≤ blankPosition + 1 ∧ blankPosition + 1 < c.untilBlank)) ∨
      (c.untilBlank ≤ 3 ∧ (c.eventsOf .cycle).count .blankStart = 1 ∧
        c.cycle.2.awaitsFrame = false ∧
        c.cycle.2.untilBlank + 3 = dotsPerFrame + c.untilBlank) := by
  have h₁ : c.standing.tick.raster.InFrame := Standing.inFrame_tick h
  have h₂ : c.standing.tick.tick.raster.InFrame := Standing.inFrame_tick h₁
  have hu : c.cycle.2.untilBlank = c.standing.tick.tick.tick.raster.untilBlank := by
    rw [untilBlank, raster_cycle]
  rw [h.awaitsFrame_cycle, h.count_blankStart, hu]
  obtain ⟨hn, h₀, hd⟩ | ⟨hn, h₀, hd⟩ :=
    (Standing.approaches_tick h).three (Standing.approaches_tick h₁) (Standing.approaches_tick h₂)
  · refine .inl ⟨hn, h₀, ?_, hd⟩
    rw [untilBlank, h₀]
    exact Bool.and_true _
  · refine .inr ⟨hn, h₀, ?_, hd⟩
    rw [untilBlank, h₀]
    exact Bool.and_false _

/-! ### While the console waits for a frame -/

/-- No frame is ready after any of so many cycles. -/
def Waits (c : Console) (k : Nat) : Prop :=
  ∀ j, 0 < j → j ≤ k → (c.after (cycles j)).awaitsFrame = true

/-- **While no frame gets ready** the vertical blank does not start and comes nearer by three dots a
cycle, and by one more in all where one was left out. -/
theorem InFrame.scan {k : Nat} (h : c.InFrame) (hw : c.Waits k) :
    (c.after (cycles k)).InFrame ∧ (c.events (cycles k)).count .blankStart = 0 ∧
      (0 < k → c.awaitsFrame = true) ∧
      ((c.after (cycles k)).untilBlank + 3 * k = c.untilBlank ∨
        (c.after (cycles k)).untilBlank + 3 * k + 1 = c.untilBlank ∧
          (c.after (cycles k)).untilBlank ≤ blankPosition + 1) := by
  induction k with
  | zero => exact ⟨h, rfl, fun hk => absurd hk (Nat.lt_irrefl 0), .inl rfl⟩
  | succ k ih =>
    obtain ⟨hf, hn, ha, hd⟩ := ih fun j hj hk => hw j hj (Nat.le_succ_of_le hk)
    have hr := hw (k + 1) (Nat.succ_pos k) (Nat.le_refl _)
    rw [after_cycles_succ'] at hr
    rw [after_cycles_succ', events_cycles_succ', List.count_append, hn]
    obtain ⟨_, hc, hs, hu⟩ | ⟨_, _, hs, _⟩ := hf.cycle_cases
    · refine ⟨hf.cycle, by rw [hc], fun _ => ?_, by omega⟩
      cases k with
      | zero => exact hs ▸ hr
      | succ k => exact ha (Nat.succ_pos k)
    · -- in the last cycle the vertical blank would start, and a frame would be ready
      rw [hs] at hr
      cases hr

end Console
end Famicom
