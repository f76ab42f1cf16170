/-
# When the status flags are up

Each of the three flags goes up in dots of its own, and all three are lowered in dot 1 of the last
line, which is never left out.  So a flag that is up tells where the raster stands: between the dot
after the first that can raise it and the one that lowers it (`Ppu.Status.InWindows`).  What the
processor does in between can lower the flag of the vertical blank earlier and raise none.

Reading the status takes the flag of the vertical blank, so a vertical blank is seen once at the
most, and polls that see one are not more than the vertical blanks that have started
(`Ppu.countAlong_sees_le`): a vertical blank that has not been seen yet is kept in the flag.
-/

import Famicom.Proofs.Ppu.Calls
import Famicom.Proofs.Ppu.Compositing

namespace Famicom

/-- A bit that is left of a byte when others are lowered. -/
theorem and_and_mask_ne_zero (v kept mask : UInt8) {i : Nat} (h : mask.toNat = 2 ^ i) :
    ((v &&& kept) &&& mask != 0) = ((v &&& mask != 0) && kept.toNat.testBit i) := by
  rw [and_mask_ne_zero _ mask h, and_mask_ne_zero _ mask h, UInt8.toNat_and, Nat.testBit_and]

namespace Ppu

namespace Status

/-- The hit of sprite zero leaves the overflow flag. -/
theorem spriteOverflow_setSpriteZeroHit (s : Status) :
    s.setSpriteZeroHit.spriteOverflow = s.spriteOverflow :=
  (or_and_mask_ne_zero s.bits 0x40 0x20 (show _ = 2 ^ 5 from rfl)).trans (Bool.or_false _)

/-- The start of the vertical blank leaves the overflow flag: it stays up until the pre-render
line. -/
theorem spriteOverflow_setVblank (s : Status) : s.setVblank.spriteOverflow = s.spriteOverflow :=
  (or_and_mask_ne_zero s.bits 0x80 0x20 (show _ = 2 ^ 5 from rfl)).trans (Bool.or_false _)

/-- The start of the vertical blank leaves the hit of sprite zero as well. -/
theorem spriteZeroHit_setVblank (s : Status) : s.setVblank.spriteZeroHit = s.spriteZeroHit :=
  (or_and_mask_ne_zero s.bits 0x80 0x40 (show _ = 2 ^ 6 from rfl)).trans (Bool.or_false _)

/-- A read of the status lowers bit 7 alone. -/
theorem spriteOverflow_clearVblank (s : Status) : s.clearVblank.spriteOverflow = s.spriteOverflow :=
  (and_and_mask_ne_zero s.bits 0x7F 0x20 (show _ = 2 ^ 5 from rfl)).trans (Bool.and_true _)

/-- A read of the status lowers bit 7 alone, so the hit can be read any number of times. -/
theorem spriteZeroHit_clearVblank (s : Status) : s.clearVblank.spriteZeroHit = s.spriteZeroHit :=
  (and_and_mask_ne_zero s.bits 0x7F 0x40 (show _ = 2 ^ 6 from rfl)).trans (Bool.and_true _)

/-- The pre-render line lowers the overflow flag. -/
theorem spriteOverflow_clear (s : Status) : s.clear.spriteOverflow = false :=
  (and_and_mask_ne_zero s.bits 0x1F 0x20 (show _ = 2 ^ 5 from rfl)).trans (Bool.and_false _)

/-- The pre-render line lowers the hit of sprite zero. -/
theorem spriteZeroHit_clear (s : Status) : s.clear.spriteZeroHit = false :=
  (and_and_mask_ne_zero s.bits 0x1F 0x40 (show _ = 2 ^ 6 from rfl)).trans (Bool.and_false _)

/-- The bits that belong to no flag. -/
def unused (s : Status) : UInt8 := s.bits &&& 0x1F

/-- Raising a flag of the upper three bits leaves the lower five. -/
theorem unused_raise (s : Status) {raised : UInt8} (h : raised &&& 0x1F = 0) :
    unused ⟨s.bits ||| raised⟩ = s.unused := by
  have hd : (s.bits ||| raised) &&& 0x1F = s.bits &&& 0x1F ||| raised &&& 0x1F := by
    rw [← UInt8.toNat_inj]
    simp only [UInt8.toNat_and, UInt8.toNat_or]
    exact Nat.and_or_distrib_right ..
  rw [unused, hd, h]
  exact UInt8.or_zero

/-- Masking bits away cannot raise any of the lower five. -/
theorem unused_lower {s : Status} (h : s.unused = 0) (kept : UInt8) :
    unused ⟨s.bits &&& kept⟩ = 0 := by
  rw [unused] at *
  dsimp only
  rw [UInt8.and_assoc, UInt8.and_comm kept, ← UInt8.and_assoc, h]
  exact UInt8.zero_and

end Status

/-! ### What a dot does to the flags -/

/-- What a dot may do to the flags. -/
inductive FlagStep (p : Ppu) : Status → Prop where
  | lower (hl : p.raster.line = preRenderLine) (hd : p.raster.dot = 1) : FlagStep p p.status.clear
  | keep (h : ¬(p.raster.line = preRenderLine ∧ p.raster.dot = 1)) : FlagStep p p.status
  | overflow (hl : p.raster.line < visibleLines) (hd : p.raster.dot = 1) :
    FlagStep p p.status.setSpriteOverflow
  | hit (hl : p.raster.line < visibleLines) (hd : p.raster.dot = 256) :
    FlagStep p p.status.setSpriteZeroHit
  | blank (hl : p.raster.line = vblankLine) (hd : p.raster.dot = 1) : FlagStep p p.status.setVblank

section Tick

variable {p : Ppu}

/-- A visible line is not the line in which the flags are lowered. -/
theorem not_clears_of_visible (hl : p.raster.line < visibleLines) :
    ¬(p.raster.line = preRenderLine ∧ p.raster.dot = 1) := by
  unfold visibleLines at hl
  unfold preRenderLine
  omega

/-- The search for sprites, at dot 1 of a visible line, may raise the overflow flag and does nothing
else to the status. -/
theorem flagStep_evaluateSprites (hl : p.raster.line < visibleLines) (hd : p.raster.dot = 1) :
    p.FlagStep p.evaluateSprites.status := by
  unfold evaluateSprites
  split
  · dsimp only
    split
    · exact .overflow hl hd
    · exact .keep (not_clears_of_visible hl)
  · exact .keep (not_clears_of_visible hl)

/-- From dot 2 on no search is made, and plotting a pixel leaves the status. -/
theorem status_plotted (h : p.raster.dot ≠ 1) (board : Board) (hc : p.raster.dot - 1 < 256) :
    (p.plotted board hc).status = p.status := by
  show (p.fetched board).status = _
  rw [status_fetched, if_neg h]

/-- Drawing the sprites leaves the status or raises the hit of sprite zero. -/
theorem status_drawSprites (p : Ppu) (board : Board) :
    (p.drawSprites board).status = p.status ∨
      (p.drawSprites board).status = p.status.setSpriteZeroHit := by
  unfold drawSprites
  dsimp only
  split
  · exact .inr rfl
  · exact .inl rfl

/-- A dot of a visible line: dot 1 searches, dot 256 draws the sprites, and no other dot touches the
status. -/
theorem flagStep_tick_of_visible (hl : p.raster.line < visibleLines) (board : Board) :
    p.FlagStep (p.tick board).status := by
  have hn := not_clears_of_visible hl
  by_cases hd : p.raster.dot = 256
  · have hc := column_lt (by omega : 1 ≤ p.raster.dot ∧ p.raster.dot ≤ 256)
    have hp := status_plotted (by omega) board hc
    show p.FlagStep (p.draw board).status
    rw [draw, if_pos hl, visibleDot_last hd]
    dsimp only
    rw [status_showLine]
    split
    · obtain hs | hs := status_drawSprites (p.plotted board hc) board
      · rw [hs, hp]
        exact .keep hn
      · rw [hs, hp]
        exact .hit hl hd
    · rw [hp]
      exact .keep hn
  · rw [status_tick hl hd]
    split
    · next hd => exact flagStep_evaluateSprites hl hd
    · exact .keep hn

/-- A dot of the pre-render line: the first lowers all three flags. -/
theorem status_preRenderDot (p : Ppu) (board : Board) :
    (p.preRenderDot board).status = if p.raster.dot = 1 then p.status.clear else p.status := by
  have hb (q : Ppu) :
      (if q.mask.rendering then q.backgroundDot board else q).status = q.status := by
    split
    · exact status_backgroundDot q board
    · rfl
  unfold preRenderDot
  dsimp only
  rw [hb]
  split <;> rfl

/-- **A dot raises a flag only in its place**, and in dot 1 of the last line it lowers all three. -/
theorem flagStep_tick (p : Ppu) (board : Board) : p.FlagStep (p.tick board).status := by
  by_cases hv : p.raster.line < visibleLines
  · exact flagStep_tick_of_visible hv board
  · show p.FlagStep (p.draw board).status
    rw [draw, if_neg hv]
    split
    · next hl =>
      rw [status_preRenderDot]
      split
      · next hd => exact .lower hl hd
      · next hd => exact .keep fun h => hd h.2
    · next hl =>
      split
      · next h => exact .blank h.1 h.2
      · exact .keep fun h => hl h.1

end Tick

namespace FlagStep

variable {p : Ppu} {s : Status}

/-- Where the overflow flag is up after a dot, it was up before and is not lowered there, or the dot
is the one in which the search is made. -/
theorem spriteOverflow (h : p.FlagStep s) (hs : s.spriteOverflow = true) :
    (p.status.spriteOverflow = true ∧ ¬(p.raster.line = preRenderLine ∧ p.raster.dot = 1)) ∨
      (p.raster.line < visibleLines ∧ p.raster.dot = 1) := by
  cases h with
  | lower => exact absurd (p.status.spriteOverflow_clear.symm.trans hs) Bool.false_ne_true
  | keep h => exact .inl ⟨hs, h⟩
  | overflow hl hd => exact .inr ⟨hl, hd⟩
  | hit hl hd =>
    rw [Status.spriteOverflow_setSpriteZeroHit] at hs
    exact .inl ⟨hs, not_clears_of_visible hl⟩
  | blank hl hd =>
    rw [Status.spriteOverflow_setVblank] at hs
    exact .inl ⟨hs, fun h => absurd (hl.symm.trans h.1) (by decide)⟩

/-- Where the hit is up after a dot, it was up before and is not lowered there, or the dot is the
one in which the sprites are drawn. -/
theorem spriteZeroHit (h : p.FlagStep s) (hs : s.spriteZeroHit = true) :
    (p.status.spriteZeroHit = true ∧ ¬(p.raster.line = preRenderLine ∧ p.raster.dot = 1)) ∨
      (p.raster.line < visibleLines ∧ p.raster.dot = 256) := by
  cases h with
  | lower => exact absurd (p.status.spriteZeroHit_clear.symm.trans hs) Bool.false_ne_true
  | keep h => exact .inl ⟨hs, h⟩
  | overflow hl hd =>
    rw [Status.spriteZeroHit_setSpriteOverflow] at hs
    exact .inl ⟨hs, not_clears_of_visible hl⟩
  | hit hl hd => exact .inr ⟨hl, hd⟩
  | blank hl hd =>
    rw [Status.spriteZeroHit_setVblank] at hs
    exact .inl ⟨hs, fun h => absurd (hl.symm.trans h.1) (by decide)⟩

/-- The lower five bits of the status stay zero: no dot raises one of them. -/
theorem unused (h : p.FlagStep s) (hp : p.status.unused = 0) : s.unused = 0 := by
  cases h with
  | lower => exact Status.unused_lower hp 0x1F
  | keep => exact hp
  | overflow => exact (p.status.unused_raise (show 0x20 &&& 0x1F = 0 from rfl)).trans hp
  | hit => exact (p.status.unused_raise (show 0x40 &&& 0x1F = 0 from rfl)).trans hp
  | blank => exact (p.status.unused_raise (show 0x80 &&& 0x1F = 0 from rfl)).trans hp

end FlagStep

/-! ### Windows -/

/-- A flag that is raised in a dot of the visible lines stays in the window that begins after the
first of these dots. -/
theorem Raster.Between.of_raised {r : Raster} {dot : Nat} (hd : dot + 1 < dotsPerLine)
    (h : (r.Between (0, dot + 1) (preRenderLine, 1) ∧ ¬(r.line = preRenderLine ∧ r.dot = 1)) ∨
      (r.line < visibleLines ∧ r.dot = dot)) (rendering : Bool) :
    (r.advance rendering).Between (0, dot + 1) (preRenderLine, 1) := by
  obtain ⟨h, hn⟩ | ⟨hl, rfl⟩ := h
  · exact h.advance hn rendering
  · unfold visibleLines at hl
    rw [advance_of_lt hd (by simp only [preRenderLine]; omega)]
    constructor <;> simp only [preRenderLine] <;> omega

/-- **The flags are up in their windows only.** -/
structure Status.InWindows (s : Status) (r : Raster) : Prop where
  vblank : s.vblank = true → r.Between (241, 2) (261, 1)
  spriteZeroHit : s.spriteZeroHit = true → r.Between (0, 257) (261, 1)
  spriteOverflow : s.spriteOverflow = true → r.Between (0, 2) (261, 1)
  unused : s.unused = 0

/-- A read of the status keeps the windows: a flag that is lowered needs none. -/
theorem Status.InWindows.clearVblank {s : Status} {r : Raster} (h : s.InWindows r) :
    s.clearVblank.InWindows r where
  vblank hs := absurd (s.vblank_clearVblank.symm.trans hs) Bool.false_ne_true
  spriteZeroHit hs := h.spriteZeroHit (s.spriteZeroHit_clearVblank.symm.trans hs)
  spriteOverflow hs := h.spriteOverflow (s.spriteOverflow_clearVblank.symm.trans hs)
  unused := unused_lower h.unused 0x7F

/-- **A dot keeps the flags in their windows.** -/
theorem inWindows_tick {p : Ppu} (h : p.status.InWindows p.raster) (board : Board) :
    (p.tick board).status.InWindows (p.tick board).raster := by
  have hs := flagStep_tick p board
  have hr := raster_tick p board
  constructor
  case vblank =>
    have hb : p.standing.FlagInBlank := fun hv => Raster.inBlank_iff_between.2 (h.vblank hv)
    have hb' : (p.tick board).standing.FlagInBlank := by
      rw [standing_tick]
      exact hb.tick
    exact fun hv => Raster.inBlank_iff_between.1 (hb' hv)
  case spriteZeroHit =>
    intro hf
    rw [hr]
    refine Raster.Between.of_raised (by decide) ?_ _
    exact (hs.spriteZeroHit hf).imp_left fun k => ⟨h.spriteZeroHit k.1, k.2⟩
  case spriteOverflow =>
    intro hf
    rw [hr]
    refine Raster.Between.of_raised (by decide) ?_ _
    exact (hs.spriteOverflow hf).imp_left fun k => ⟨h.spriteOverflow k.1, k.2⟩
  case unused => exact hs.unused h.unused

/-- **So does every access.** -/
theorem inWindows_call {p : Ppu} (h : p.status.InWindows p.raster) (x : Call) :
    (p.call x).status.InWindows (p.call x).raster := by
  cases hx : x.isTick with
  | true =>
    cases x with
    | tick board => exact inWindows_tick h board
    | read | write | writeOam | takeNmi | clearFrameReady => cases hx
  | false =>
    rw [(standing_call hx p).1]
    obtain hs | hs := status_call hx p
    · rw [hs]
      exact h
    · rw [hs]
      exact h.clearVblank

/-! ### Runs -/

/-- What can be asked of the picture unit, a reset being nothing special. -/
inductive Request where
  | call (x : Call)
  | reset

/-- The picture unit that a request leaves. -/
def serve (p : Ppu) : Request → Ppu
  | .call x => p.call x
  | .reset => {}

/-- After the start every flag is down, so each is in its window. -/
theorem inWindows_reset : ({} : Ppu).status.InWindows ({} : Ppu).raster where
  vblank h := absurd h (by decide)
  spriteZeroHit h := absurd h (by decide)
  spriteOverflow h := absurd h (by decide)
  unused := by decide

/-- The windows hold along every run, by induction over what is asked of the unit. -/
theorem inWindows_foldl_serve {p : Ppu} (h : p.status.InWindows p.raster)
    (requests : List Request) :
    (requests.foldl serve p).status.InWindows (requests.foldl serve p).raster := by
  induction requests generalizing p with
  | nil => exact h
  | cons x rest ih =>
    cases x with
    | call x => exact ih (inWindows_call h x)
    | reset => exact ih inWindows_reset

/-- Whether a request reads the status and finds the vertical blank in it. -/
def sees (p : Ppu) : Request → Bool
  | .call (.read board register) => register == 2 && (p.read board register).1 &&& 0x80 != 0
  | _ => false

/-- Whether a request is the dot that starts the vertical blank. -/
def startsBlank (p : Ppu) : Request → Bool
  | .call (.tick _) => p.standing.startsVblank
  | _ => false

/-- How often something is so when requests are served one after the other. -/
def countAlong (what : Ppu → Request → Bool) (p : Ppu) : List Request → Nat
  | [] => 0
  | x :: rest => (what p x).toNat + countAlong what (p.serve x) rest

/-- Bit 7 of the status is the flag. -/
theorem and_highest_readStatus (p : Ppu) : (p.readStatus.1 &&& 0x80 != 0) = p.status.vblank := by
  have h₇ : (0x80 : UInt8).toNat = 2 ^ 7 := rfl
  have hl : (p.latch &&& 0x1F).toNat.testBit 7 = false := by
    rw [UInt8.toNat_and, Nat.testBit_and]
    exact Bool.and_false _
  rw [readStatus, or_and_mask_ne_zero _ _ _ h₇, and_and_mask_ne_zero _ _ _ h₇, hl, Bool.or_false]
  exact Bool.and_true _

/-- **A vertical blank that is seen has started**, and it has not been seen before: the flag stands
for the one that is still to be seen. -/
theorem sees_add_vblank_le (p : Ppu) (x : Request) :
    (p.sees x).toNat + (p.serve x).status.vblank.toNat ≤
      (p.startsBlank x).toNat + p.status.vblank.toNat := by
  cases x with
  | reset =>
    have h : ({} : Ppu).status.vblank = false := by decide
    simp only [sees, serve, startsBlank, h]
    exact Nat.zero_le _
  | call x =>
    cases x with
    | tick board =>
      have ht : (p.tick board).status.vblank =
          (p.standing.startsVblank || p.status.vblank && !p.standing.endsVblank) :=
        congrArg Standing.vblank (standing_tick p board)
      simp only [sees, serve, call, startsBlank, ht]
      -- a dot that raises the flag counts one start, and no dot sees it
      cases p.standing.startsVblank <;> cases p.status.vblank <;> cases p.standing.endsVblank <;>
        decide
    | read board register =>
      simp only [sees, serve, call, startsBlank, status_read]
      by_cases h : register = 2
      · -- a read that sees the flag lowers it
        subst h
        rw [if_pos rfl, Status.vblank_clearVblank, beq_self_eq_true, Bool.true_and]
        show (p.readStatus.1 &&& 0x80 != 0).toNat + 0 ≤ 0 + _
        rw [and_highest_readStatus, Nat.add_comm]
      · rw [if_neg h, beq_false_of_ne h, Bool.false_and]
    | write board register v =>
      simp only [sees, serve, call, startsBlank, status_write]
      exact Nat.le_refl _
    | writeOam v | takeNmi | clearFrameReady => exact Nat.le_refl _

/-- Every read that sees the vertical blank lowers it, so there are no more of them than starts, and
one more where the flag was up at first. -/
theorem countAlong_sees_le (p : Ppu) (requests : List Request) :
    countAlong sees p requests ≤ countAlong startsBlank p requests + p.status.vblank.toNat := by
  induction requests generalizing p with
  | nil => exact Nat.zero_le _
  | cons x rest ih =>
    have hx := sees_add_vblank_le p x
    have hr := ih (p.serve x)
    unfold countAlong
    omega

/-- **When the status flags are up.**  Whatever is asked of the picture unit, in between resets
included: the flag of the vertical blank is up only from dot 2 of line 241 on, the flag of sprite 0
only from dot 257 of line 0 on, and the flag of too many sprites only from dot 2 of line 0 on, all
of them up to dot 1 of line 261 at the latest; the other bits of the status are zero.  And reads of
the status that find the vertical blank in it are no more than the vertical blanks that have
started. -/
theorem flags_in_windows (requests : List Request) :
    let p := requests.foldl serve {}
    p.status.InWindows p.raster ∧
      countAlong sees {} requests ≤ countAlong startsBlank {} requests := by
  refine ⟨inWindows_foldl_serve inWindows_reset requests, ?_⟩
  have h : ({} : Ppu).status.vblank = false := by decide
  have hc := countAlong_sees_le {} requests
  rwa [h] at hc

end Ppu
end Famicom
