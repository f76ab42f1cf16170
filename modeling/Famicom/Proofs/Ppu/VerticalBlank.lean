/-
# When the vertical blank is

The flag of the vertical blank goes up in dot 1 of line 241 and is lowered in dot 1 of line 261 at
the latest, so it is up only while the raster stands between the two (`Ppu.Raster.InBlank`).  A
request for an NMI that waits there cannot meet a second one from the raster, for the raster does
not come to dot 1 of line 241 before it has left.
-/

import Famicom.Proofs.Memory.Access
import Famicom.Proofs.Ppu.Raster

namespace Famicom
namespace Ppu

/-- The dots before which the flag of the vertical blank may be up. -/
def Raster.InBlank (r : Raster) : Prop :=
  r.line = vblankLine ∧ 2 ≤ r.dot ∨ vblankLine < r.line ∧ r.line < preRenderLine ∨
    r.line = preRenderLine ∧ r.dot ≤ 1

namespace Raster

/-- The raster stands at one of the two places, each given by line and dot, or between them. -/
structure Between (r : Raster) (first last : Nat × Nat) : Prop where
  first_le : first.1 < r.line ∨ first.1 = r.line ∧ first.2 ≤ r.dot
  le_last : r.line < last.1 ∨ r.line = last.1 ∧ r.dot ≤ last.2

/-- A window that ends with the dot that lowers the flags is left in that dot and in no other. -/
theorem Between.advance {r : Raster} {first : Nat × Nat} (h : r.Between first (preRenderLine, 1))
    (hn : ¬(r.line = preRenderLine ∧ r.dot = 1)) (rendering : Bool) :
    (r.advance rendering).Between first (preRenderLine, 1) := by
  obtain ⟨hf, hl⟩ := h
  unfold preRenderLine at *
  dsimp only at hl
  by_cases hd : r.dot + 1 < dotsPerLine
  · rw [advance_of_lt hd (by simp only [preRenderLine]; omega)]
    constructor <;> dsimp only <;> omega
  · -- the end of a line that is not the last
    have hd' := hd
    unfold dotsPerLine at hd'
    rw [advance_last (Nat.le_of_not_lt hd), nextLine_of_lt (by unfold linesPerFrame; omega)]
    constructor <;> dsimp only <;> omega

/-- The vertical blank is the stretch from dot 2 of line 241 to dot 1 of line 261. -/
theorem inBlank_iff_between {r : Raster} :
    r.InBlank ↔ r.Between (vblankLine, 2) (preRenderLine, 1) := by
  unfold InBlank vblankLine preRenderLine
  constructor
  · intro h
    constructor <;> dsimp only <;> omega
  · rintro ⟨hf, hl⟩
    dsimp only at hf hl
    omega

/-- The raster stays in the vertical blank until it has gone through dot 1 of line 261. -/
theorem InBlank.advance {r : Raster} (h : r.InBlank)
    (hn : ¬(r.line = preRenderLine ∧ r.dot = 1)) (rendering : Bool) :
    (r.advance rendering).InBlank :=
  inBlank_iff_between.2 ((inBlank_iff_between.1 h).advance hn rendering)

end Raster

namespace Standing

/-- The flag of the vertical blank is up only in the vertical blank. -/
def FlagInBlank (s : Standing) : Prop := s.vblank = true → s.raster.InBlank

/-- A request for an NMI waits only in the vertical blank. -/
def RequestInBlank (s : Standing) : Prop := s.nmiPending = true → s.raster.InBlank

/-- A request for an NMI waits only while the NMI is enabled. -/
def RequestEnabled (s : Standing) : Prop := s.nmiPending = true → s.control.nmiEnabled = true

/-- The vertical blank starts in one dot of the frame. -/
theorem startsVblank_iff {s : Standing} :
    s.startsVblank = true ↔ s.raster.line = vblankLine ∧ s.raster.dot = 1 := by
  rw [startsVblank, Bool.and_eq_true, beq_iff_eq, beq_iff_eq]

/-- It ends in one dot of the frame. -/
theorem endsVblank_iff {s : Standing} :
    s.endsVblank = true ↔ s.raster.line = preRenderLine ∧ s.raster.dot = 1 := by
  rw [endsVblank, Bool.and_eq_true, beq_iff_eq, beq_iff_eq]

/-- The dot that starts the vertical blank leads into it. -/
theorem inBlank_of_startsVblank {s : Standing} (h : s.startsVblank = true) :
    s.tick.raster.InBlank := by
  obtain ⟨hl, hd⟩ := startsVblank_iff.1 h
  refine .inl ?_
  rw [tick, Raster.advance_of_lt (by simp only [dotsPerLine]; omega) (by omega)]
  exact ⟨hl, by dsimp only; omega⟩

/-- **The flag goes up in dot 1 of line 241 and is down after dot 1 of line 261.** -/
theorem FlagInBlank.tick {s : Standing} (h : s.FlagInBlank) : s.tick.FlagInBlank := by
  intro hv
  by_cases hs : s.startsVblank = true
  · exact inBlank_of_startsVblank hs
  · rw [Bool.not_eq_true] at hs
    have hf : s.vblank = true ∧ s.endsVblank = false := by
      rw [Standing.tick, hs, Bool.false_or, Bool.and_eq_true, Bool.not_eq_true'] at hv
      exact hv
    refine (h hf.1).advance (fun he => ?_) s.mask.rendering
    rw [endsVblank_iff.2 he] at hf
    cases hf.2

/-- While a request waits in the vertical blank the raster makes no other. -/
theorem RequestInBlank.startsVblank {s : Standing} (h : s.RequestInBlank)
    (hp : s.nmiPending = true) : s.startsVblank = false := by
  have hb := h hp
  rw [← Bool.not_eq_true, startsVblank_iff]
  unfold Raster.InBlank vblankLine preRenderLine at *
  omega

/-- A dot raises a request only by starting the vertical blank with the NMI enabled. -/
theorem nmiPending_tick {s : Standing} (hp : s.nmiPending = false)
    (ht : s.tick.nmiPending = true) : s.startsVblank = true ∧ s.control.nmiEnabled = true := by
  rwa [tick, hp, Bool.false_or, Bool.and_eq_true] at ht

/-- A request of the raster comes in the first line of the vertical blank. -/
theorem line_tick {s : Standing} (hp : s.nmiPending = false) (ht : s.tick.nmiPending = true) :
    s.tick.raster.line = vblankLine := by
  obtain ⟨hl, hd⟩ := startsVblank_iff.1 (nmiPending_tick hp ht).1
  rw [tick, Raster.advance_of_lt (by simp only [dotsPerLine]; omega) (by omega)]
  exact hl

/-- A request that came in the first line of the vertical blank is still in it a dot later. -/
theorem RequestInBlank.tick {s : Standing} (h : s.RequestInBlank)
    (hl : s.nmiPending = true → s.raster.line = vblankLine) : s.tick.RequestInBlank := by
  intro ht
  cases hp : s.nmiPending with
  | false => exact inBlank_of_startsVblank (nmiPending_tick hp ht).1
  | true =>
    refine (h hp).advance (fun he => ?_) s.mask.rendering
    have := hl hp
    unfold vblankLine at this
    unfold preRenderLine at he
    omega

/-- A dot raises no request but for an NMI that is enabled. -/
theorem RequestEnabled.tick {s : Standing} (h : s.RequestEnabled) : s.tick.RequestEnabled := by
  intro ht
  cases hp : s.nmiPending with
  | false => exact (nmiPending_tick hp ht).2
  | true => exact h hp

/-- Where no NMI is requested, nothing is asked of the raster. -/
theorem requestInBlank_of_not {s : Standing} (hp : s.nmiPending = false) :
    s.RequestInBlank := by
  intro h
  rw [hp] at h
  cases h

/-- Where no NMI is requested, none has to be enabled. -/
theorem requestEnabled_of_not {s : Standing} (hp : s.nmiPending = false) :
    s.RequestEnabled := by
  intro h
  rw [hp] at h
  cases h

/-- No write moves the raster. -/
theorem raster_write (s : Standing) (register : Nat) (v : UInt8) :
    (s.write register v).raster = s.raster := by
  unfold write
  split <;> rfl

/-- No write completes a frame. -/
theorem frameReady_write (s : Standing) (register : Nat) (v : UInt8) :
    (s.write register v).frameReady = s.frameReady := by
  unfold write
  split <;> rfl

/-- No write raises or lowers the vertical blank. -/
theorem vblank_write (s : Standing) (register : Nat) (v : UInt8) :
    (s.write register v).vblank = s.vblank := by
  unfold write
  split <;> rfl

/-- A write leaves a request and may make one: it enables the NMI in the vertical blank. -/
theorem nmiPending_write (s : Standing) (register : Nat) (v : UInt8) :
    (s.write register v).nmiPending = (s.nmiPending || s.requestsNmi register v) := by
  by_cases h : register = 0
  · subst h
    rfl
  · have hr : s.requestsNmi register v = false := by
      rw [requestsNmi, beq_false_of_ne h, Bool.false_and, Bool.false_and, Bool.false_and]
    rw [hr, Bool.or_false]
    unfold write
    split
    · exact absurd rfl h
    all_goals rfl

/-- Between two dots the flag can only be lowered, so it stays in its window. -/
theorem FlagInBlank.seen {s t : Standing} (h : s.FlagInBlank) (k : Seen s t) :
    t.FlagInBlank := by
  intro hv
  rw [k.raster]
  exact h (k.vblank hv)

/-- Between two dots a request that waits is the same request, at the same dot. -/
theorem RequestInBlank.seen {s t : Standing} (h : s.RequestInBlank) (k : Seen s t) :
    t.RequestInBlank := by
  intro hp
  rw [k.nmiPending] at hp
  rw [k.raster]
  exact h hp

/-- An access that is no write leaves the NMI enabled or not. -/
theorem RequestEnabled.seen {s t : Standing} (h : s.RequestEnabled) (k : Seen s t) :
    t.RequestEnabled := by
  intro hp
  rw [k.nmiPending] at hp
  rw [k.control]
  exact h hp

/-- A write leaves the flag and the raster, so the flag stays in its window. -/
theorem FlagInBlank.write {s : Standing} (h : s.FlagInBlank) (register : Nat) (v : UInt8) :
    (s.write register v).FlagInBlank := by
  intro hv
  rw [vblank_write] at hv
  rw [raster_write]
  exact h hv

/-- A write requests an NMI only in the vertical blank. -/
theorem RequestInBlank.write {s : Standing} (h : s.RequestInBlank) (hf : s.FlagInBlank)
    (register : Nat) (v : UInt8) : (s.write register v).RequestInBlank := by
  intro hp
  rw [nmiPending_write, Bool.or_eq_true] at hp
  rw [raster_write]
  rcases hp with hp | hw
  · exact h hp
  · rw [requestsNmi, Bool.and_eq_true] at hw
    exact hf hw.2

end Standing
end Ppu
end Famicom
