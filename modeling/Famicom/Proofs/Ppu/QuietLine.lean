/-
# A line that is left alone

From the first dot of a visible line to the last that draws there are 256 dots.  If no register and
no bank is touched meanwhile, then what these dots do hangs on the state before the first of them
alone, and not on the processor cycles that pass in between (`Ppu.QuietFor.midline`): dot by dot
the pixels of the background come into the line, the sprites found in the first dot are kept, and
the flag of sprite 0 stays as it is.

The last of these dots completes the background (`Ppu.QuietFor.line_set_last`) before it lays the
sprites over it.
-/

import Famicom.Proofs.Ppu.Lookup
import Famicom.Proofs.Ppu.SpriteSearch

namespace Famicom
namespace Ppu

/-- So many dots are drawn and processor cycles pass, and no register and no bank is touched. -/
inductive QuietFor (p : Ppu) (b : Board) : Nat → Ppu → Board → Prop where
  | start : QuietFor p b 0 p b
  | dot {n : Nat} {q : Ppu} {c : Board} (h : QuietFor p b n q c) : QuietFor p b (n + 1) (q.tick c) c
  | cycle {n : Nat} {q : Ppu} {c : Board} (h : QuietFor p b n q c) : QuietFor p b n q c.tick
  | takeNmi {n : Nat} {q : Ppu} {c : Board} (h : QuietFor p b n q c) : QuietFor p b n q.takeNmi.2 c
  | clearFrameReady {n : Nat} {q : Ppu} {c : Board} (h : QuietFor p b n q c) :
    QuietFor p b n q.clearFrameReady c

/-- The background pixel of column `x` of a line: what the shift registers show in the dot of the
column, if the line is drawn from its first dot on. -/
def backgroundAt (p : Ppu) (b : Board) (x : Nat) : UInt8 :=
  ((fun q => q.tick b)^[x + 1] p).backgroundPixel x

/-- The background of a line. -/
def backgroundLine (p : Ppu) (b : Board) : Vector UInt8 256 :=
  Vector.ofFn fun x => p.backgroundAt b x

/-- The standing without the signals of the vertical blank, which a processor may take note of. -/
def Standing.still (s : Standing) : Standing := { s with frameReady := false, nmiPending := false }

theorem Fetch.dot_still (f : Fetch) (s : Standing) (b : Board) : f.dot s.still b = f.dot s b := rfl

section Runs

variable {p q : Ppu} {b c : Board} {n : Nat}

/-- The number of dots forgotten. -/
theorem QuietFor.quiet (h : QuietFor p b n q c) : Quiet p b q c := by
  induction h with
  | start => exact .start
  | dot _ ih => exact ih.dot
  | cycle _ ih => exact ih.cycle
  | takeNmi _ ih => exact ih.takeNmi
  | clearFrameReady _ ih => exact ih.clearFrameReady

/-- The dots alone. -/
theorem quietFor_iterate (p : Ppu) (b : Board) (n : Nat) :
    QuietFor p b n ((fun q => q.tick b)^[n] p) b := by
  induction n with
  | zero => exact .start
  | succ n ih =>
    rw [Function.iterate_succ_apply']
    exact ih.dot

/-- What the processor does meanwhile leaves the standing as it is. -/
theorem QuietFor.still (h : QuietFor p b n q c) :
    q.standing.still = ((fun q => q.tick b)^[n] p).standing.still := by
  induction h with
  | start => rfl
  | dot _ ih =>
    have tick_still (s : Standing) : s.tick.still = s.still.tick.still := by
      simp [Standing.tick, Standing.still, Standing.startsVblank, Standing.endsVblank]
    rw [Function.iterate_succ_apply', standing_tick, standing_tick, tick_still, ih, ← tick_still]
  | cycle _ ih => exact ih
  | takeNmi _ ih => exact ih
  | clearFrameReady _ ih => exact ih

/-- Nor has it a part in the fetching. -/
theorem QuietFor.fetch (h : QuietFor p b n q c) : q.fetch = ((fun q => q.tick b)^[n] p).fetch := by
  induction h with
  | start => rfl
  | @dot n q c h ih =>
    have hs := h.still
    rw [Function.iterate_succ_apply']
    generalize (fun q => q.tick b)^[n] p = r at ih hs ⊢
    have hm : q.mask = r.mask := congrArg Standing.mask hs
    have hr : q.raster = r.raster := congrArg Standing.raster hs
    rw [fetch_tick, fetch_tick, Fetch.dot_showsAs h.quiet.showsAs, hm, hr, ih, ← Fetch.dot_still,
      hs, Fetch.dot_still]
  | cycle _ ih => exact ih
  | takeNmi _ ih => exact ih
  | clearFrameReady _ ih => exact ih

theorem QuietFor.backgroundPixel (h : QuietFor p b n q c) (x : Nat) :
    q.backgroundPixel x = ((fun q => q.tick b)^[n] p).backgroundPixel x := by
  have eq (r : Ppu) : r.backgroundPixel x = r.fetch.pixel r.standing.still x := rfl
  rw [eq, eq, h.fetch, h.still]

/-- The pixel that a dot puts in the line is the one that the shift registers show after it. -/
theorem pixel_tick (p : Ppu) (b : Board) (x : Nat) :
    (p.tick b).fetch.pixel p.standing x = (p.tick b).backgroundPixel x := by
  show _ = (p.tick b).fetch.pixel (p.tick b).standing x
  rw [standing_tick]
  rfl

end Runs

/-- **What the picture unit is like** when `n` dots of a line have been drawn. -/
structure Midline (p : Ppu) (b : Board) (n : Nat) (q : Ppu) : Prop where
  control : q.control = p.control
  mask : q.mask = p.mask
  raster : q.raster = { p.raster with dot := n + 1 }
  oam : n = 0 → q.oam = p.oam
  lineSprites : n ≠ 0 → q.lineSprites = p.evaluateSprites.lineSprites
  hit : q.status.spriteZeroHit = p.status.spriteZeroHit
  line : ∀ x (h : x < 256), x < n → q.line[x] = p.backgroundAt b x

theorem lineSprites_evaluateSprites (p : Ppu) :
    p.evaluateSprites.lineSprites =
      if p.mask.rendering then evaluate p.oam p.control.spriteHeight p.raster.line else {} := by
  unfold evaluateSprites
  split <;> rfl

theorem spriteZeroHit_evaluateSprites (p : Ppu) :
    p.evaluateSprites.status.spriteZeroHit = p.status.spriteZeroHit := by
  unfold evaluateSprites
  split
  · dsimp only
    split
    · exact Status.spriteZeroHit_setSpriteOverflow _
    · rfl
  · rfl

namespace QuietFor

variable {p q : Ppu} {b c : Board} {n : Nat}

/-- **A line is drawn from left to right.** -/
theorem midline (h : QuietFor p b n q c) (hl : p.raster.line < visibleLines) (hd : p.raster.dot = 1)
    (hn : n < 256) : p.Midline b n q := by
  induction h with
  | start => exact {
      control := rfl
      mask := rfl
      raster := by rw [Nat.zero_add, ← hd]
      oam := fun _ => rfl
      lineSprites := fun h => absurd rfl h
      hit := rfl
      line := fun x _ hx => absurd hx (Nat.not_lt_zero x) }
  | @dot n q c h ih =>
    have ih := ih (by omega)
    have hs : (q.tick c).standing = q.standing.tick := standing_tick q c
    have hql : q.raster.line < visibleLines := by rw [ih.raster]; exact hl
    have hqd : q.raster.dot = n + 1 := by rw [ih.raster]
    constructor
    case control => exact (congrArg Standing.control hs).trans ih.control
    case mask => exact (congrArg Standing.mask hs).trans ih.mask
    case raster =>
      rw [raster_tick, Raster.advance_of_lt (by rw [hqd, dotsPerLine]; omega) (by omega), hqd,
        ih.raster]
    case oam => exact fun h => absurd h (Nat.succ_ne_zero n)
    case lineSprites =>
      intro _
      rw [lineSprites_tick]
      by_cases h₀ : n = 0
      · -- the first dot looks for the sprites
        rw [if_pos ⟨hql, by rw [hqd, h₀]⟩, lineSprites_evaluateSprites, lineSprites_evaluateSprites,
          ih.oam h₀, ih.mask, ih.control, ih.raster]
      · rw [if_neg fun h => h₀ (by omega), ih.lineSprites h₀]
    case hit =>
      rw [status_tick hql (by omega), ← ih.hit]
      split
      · exact spriteZeroHit_evaluateSprites q
      · rfl
    case line =>
      intro x hx hxn
      have hp : (q.tick c).fetch.pixel q.standing n = p.backgroundAt b n :=
        (pixel_tick q c n).trans (h.dot.backgroundPixel n)
      simp only [line_tick hql (by omega) (show q.raster.dot < 256 by omega), hqd,
        Nat.add_sub_cancel, hp]
      rcases Nat.eq_or_lt_of_le (Nat.le_of_lt_succ hxn) with rfl | hlt
      · exact Vector.getElem_set_self _
      · rw [Vector.getElem_set_ne _ _ (by omega)]
        exact ih.line x hx hlt
  | cycle _ ih => exact ih hn
  | takeNmi _ ih => exact { ih hn with }
  | clearFrameReady _ ih => exact { ih hn with }

/-- The background is complete with the pixel of the last column. -/
theorem line_set_last (h : QuietFor p b 255 q c) (hl : p.raster.line < visibleLines)
    (hd : p.raster.dot = 1) :
    q.line.set 255 ((q.tick c).fetch.pixel q.standing 255) (by decide) = p.backgroundLine b := by
  have hp : (q.tick c).fetch.pixel q.standing 255 = p.backgroundAt b 255 :=
    (pixel_tick q c 255).trans (h.dot.backgroundPixel 255)
  rw [hp]
  exact set_last_eq_ofFn (h.midline hl hd (by decide)).line

end QuietFor

end Ppu
end Famicom
