/-
# The background is a lookup

The fetching of the background runs two tiles ahead of what is shown, through latches and shift
registers.  Seen from outside nothing of this remains: as long as no register and no bank is
touched, the pixel in column `x` of line `y` is the one that a reader finds on the board by walking
from the start of the picture `y` rows down and then to the tile of the column (`Ppu.lookup`).

The picture is followed from the last line of the frame before on, since the fetching comes to its
course there.  What is drawn of it at any moment is the invariant `Ppu.Drawn`.
-/

import Famicom.Proofs.Board.Blank
import Famicom.Proofs.Ppu.Course
import Famicom.Proofs.Ppu.Reachable

namespace Famicom
namespace Ppu

/-- **The background pixel in column `x` of line `y`**, looked up on a board: zero where it is
clipped, and else the pixel at the place `y` rows below the start and so many columns to the
right. -/
def lookup (p : Ppu) (board : Board) (y x : Nat) : UInt8 :=
  if unclipped p.mask.backgroundLeft x then
    let column := p.scroll.fineX + x
    let place := Place.stepRight^[column / 8] (Place.stepDown^[y] p.scroll.t)
    (Row.ofPlace board p.control.backgroundTable place).pixel (column % 8)
  else 0

/-- A line of background, looked up. -/
def lookupLine (p : Ppu) (board : Board) (y : Nat) : Vector UInt8 256 :=
  Vector.ofFn fun x => p.lookup board y x

/-- Dots are drawn and processor cycles pass, and no register and no bank is touched. -/
inductive Quiet (p : Ppu) (b : Board) : Ppu → Board → Prop where
  | start : Quiet p b p b
  | dot {q : Ppu} {c : Board} (h : Quiet p b q c) : Quiet p b (q.tick c) c
  | cycle {q : Ppu} {c : Board} (h : Quiet p b q c) : Quiet p b q c.tick
  | takeNmi {q : Ppu} {c : Board} (h : Quiet p b q c) : Quiet p b q.takeNmi.2 c
  | clearFrameReady {q : Ppu} {c : Board} (h : Quiet p b q c) : Quiet p b q.clearFrameReady c

/-! ### As much of the line as has been drawn

This is the invariant along a line: the pixels behind the dot are looked up already, and the
fetching is on course for those ahead. -/

/-- **What a picture unit has drawn** of a picture that is looked up on a board: it stands as it
did, its fetching is on its course, and the line holds the pixels before the dot. -/
structure Drawn (p : Ppu) (board : Board) (q : Ppu) : Prop where
  control : q.control = p.control
  mask : q.mask = p.mask
  start : q.scroll.t = p.scroll.t
  fineX : q.scroll.fineX = p.scroll.fineX
  bounded : q.standing.Bounded
  course : q.fetch.OnCourse board q.control.backgroundTable q.scroll.t q.raster
  line : q.raster.line < visibleLines → q.raster.dot ≤ 256 →
    ∀ x (h : x < 256), x + 1 < q.raster.dot → q.line[x] = p.lookup board q.raster.line x

theorem Fetch.dot_showsAs {b board : Board} (h : b.ShowsAs board) (f : Fetch) (s : Standing) :
    f.dot s b = f.dot s board := by
  have hs : f.step s b = f.step s board := by
    unfold step
    dsimp only
    rw [Background.fetch_showsAs h]
  unfold dot
  rw [hs]

namespace Drawn

variable {p q : Ppu} {b board : Board} (h : p.Drawn board q)
include h

/-- What is looked up stays the same. -/
theorem lookup_eq (y x : Nat) : q.lookup board y x = p.lookup board y x := by
  rw [lookup, lookup, h.control, h.mask, h.start, h.fineX]

/-- The dot of a unit whose background is enabled. -/
theorem fetch_tick (hm : p.mask.background = true) (hb : b.ShowsAs board) :
    (q.tick b).fetch =
      if q.raster.line < visibleLines ∨ q.raster.line = preRenderLine then
        q.fetch.dot q.standing board
      else q.fetch := by
  have hr : q.mask.rendering = true := by
    rw [Mask.rendering, h.mask, hm, Bool.true_or]
  rw [Ppu.fetch_tick, Fetch.dot_showsAs hb, hr]
  simp only [true_and]

/-- **The pixel of a visible dot is the one that is looked up.** -/
theorem pixel_tick (hm : p.mask.background = true) (hb : b.ShowsAs board)
    (hl : q.raster.line < visibleLines) (h₁ : 1 ≤ q.raster.dot) (h₂ : q.raster.dot ≤ 256) :
    (q.tick b).fetch.pixel q.standing (q.raster.dot - 1) =
      p.lookup board q.raster.line (q.raster.dot - 1) := by
  have hm' : q.standing.mask.background = true := by
    show q.mask.background = true
    rw [h.mask, hm]
  have hs := Fetch.OnCourse.pixel_dot (s := q.standing) h.course hm' hl h₁ h₂ h.bounded.fineX_lt
  rw [h.fetch_tick hm hb, if_pos (.inl hl), Fetch.pixel, hm', Bool.true_and, hs, ← h.lookup_eq]
  rfl

/-- The line is drawn pixel by pixel. -/
theorem line_tick_getElem (hm : p.mask.background = true) (hb : b.ShowsAs board)
    (hl : q.raster.line < visibleLines) (hd : q.raster.dot < 256) {x : Nat} (hx : x < 256)
    (hxd : x + 1 ≤ q.raster.dot) : (q.tick b).line[x] = p.lookup board q.raster.line x := by
  have h₁ : 1 ≤ q.raster.dot := by omega
  have hp := h.pixel_tick hm hb hl h₁ (Nat.le_of_lt hd)
  simp only [Ppu.line_tick hl h₁ hd]
  rcases Nat.eq_or_lt_of_le hxd with he | hlt
  · have hx' : q.raster.dot - 1 = x := by omega
    rw [hx'] at hp
    simp only [hx', Vector.getElem_set_self, hp]
  · rw [Vector.getElem_set_ne _ _ (by omega)]
    exact h.line hl (Nat.le_of_lt hd) x hx hlt

/-- The whole line has been drawn when the sprites are laid over it. -/
theorem line_tick_last (hm : p.mask.background = true) (hb : b.ShowsAs board)
    (hl : q.raster.line < visibleLines) (hd : q.raster.dot = 256) :
    (q.tick b).line =
      if q.mask.sprites then
        overlay (q.strips b) q.mask.spritesLeft (p.lookupLine board q.raster.line)
      else p.lookupLine board q.raster.line := by
  have hp := h.pixel_tick hm hb hl (by omega) (by omega)
  have hline : q.line.set 255 ((q.tick b).fetch.pixel q.standing 255) =
      p.lookupLine board q.raster.line := by
    rw [hd] at hp
    rw [hp]
    exact set_last_eq_ofFn fun x hx hlt => h.line hl (by omega) x hx (by omega)
  rw [Ppu.line_tick_last hl hd]
  dsimp only
  rw [hline]

/-- **A dot draws the picture on.** -/
theorem tick (hm : p.mask.background = true) (hb : b.ShowsAs board) :
    p.Drawn board (q.tick b) := by
  have hs : (q.tick b).standing = q.standing.tick := standing_tick q b
  have hc : (q.tick b).control = q.control := congrArg Standing.control hs
  have ht : (q.tick b).scroll.t = q.scroll.t := congrArg Standing.start hs
  have hr : (q.tick b).raster = q.raster.advance q.mask.rendering := raster_tick q b
  constructor
  case control => exact hc.trans h.control
  case mask => exact (congrArg Standing.mask hs).trans h.mask
  case start => exact ht.trans h.start
  case fineX => exact (congrArg Standing.fineX hs).trans h.fineX
  case bounded =>
    rw [hs]
    exact h.bounded.tick
  -- the fetching goes on by itself, as long as the background is shown
  case course =>
    have hm' : q.standing.mask.background = true := by
      show q.mask.background = true
      rw [h.mask, hm]
    rw [h.fetch_tick hm hb, hc, ht, hr]
    exact Fetch.OnCourse.tick (s := q.standing) h.course hm' h.bounded.start_lt
      h.bounded.line_lt
  case line =>
    rw [hr]
    -- on the same line the new dot has plotted its column; on a new line none is plotted yet
    rcases q.raster.advance_cases q.mask.rendering with ⟨_, ha⟩ | ⟨_, ha⟩
    · rw [ha]
      intro hl hd x hx hxd
      exact h.line_tick_getElem hm hb hl (Nat.lt_of_succ_le hd) hx (Nat.le_of_lt_succ hxd)
    · rw [ha, Raster.dot_nextLine]
      intro _ _ x _ hxd
      exact absurd hxd (Nat.not_lt_zero _)

end Drawn

variable {p q : Ppu} {b c : Board}

theorem Quiet.showsAs (h : Quiet p b q c) : c.ShowsAs b := by
  induction h with
  | start => exact .refl b
  | dot _ ih => exact ih
  | cycle _ ih => exact (Board.showsAs_tick _).trans ih
  | takeNmi _ ih => exact ih
  | clearFrameReady _ ih => exact ih

/-- At the start of the last line nothing has been drawn, and nothing needs to have been. -/
theorem drawn_start (hp : p.standing.Bounded) (hl : p.raster.line = preRenderLine)
    (hd : p.raster.dot = 0) (board : Board) : p.Drawn board p where
  control := rfl
  mask := rfl
  start := rfl
  fineX := rfl
  bounded := hp
  course := Fetch.onCourse_of_early hl (by omega) p.fetch
  line hv _ := by
    rw [hl] at hv
    exact absurd hv (by decide)

/-! ### Lines and pictures without accesses -/

/-- **The picture is drawn on as long as all is quiet.** -/
theorem Quiet.drawn (h : Quiet p b q c) (hp : p.standing.Bounded) (hm : p.mask.background = true)
    (hl : p.raster.line = preRenderLine) (hd : p.raster.dot = 0) : p.Drawn b q := by
  induction h with
  | start => exact drawn_start hp hl hd b
  | dot h ih => exact ih.tick hm h.showsAs
  | cycle _ ih => exact ih
  | takeNmi _ ih => exact { ih with bounded := ih.bounded.congr rfl rfl rfl }
  | clearFrameReady _ ih => exact { ih with bounded := ih.bounded.congr rfl rfl rfl }

/-- The dots of a line pass one by one, up to where the last line of a frame may end. -/
theorem Quiet.exists_dot (h : Quiet p b q c) (h₀ : q.raster.dot = 0) {d : Nat} (hd : d ≤ 339) :
    ∃ r, Quiet p b r c ∧ r.raster.line = q.raster.line ∧ r.raster.dot = d := by
  induction d with
  | zero => exact ⟨q, h, rfl, h₀⟩
  | succ d ih =>
    obtain ⟨r, hr, hl, hd'⟩ := ih (by omega)
    have ha : (r.tick c).raster = { r.raster with dot := r.raster.dot + 1 } := by
      rw [raster_tick]
      exact Raster.advance_of_lt (by simp only [dotsPerLine]; omega) (by omega)
    refine ⟨r.tick c, hr.dot, ?_, ?_⟩
    · rw [ha]
      exact hl
    · rw [ha, hd']

/-- After a line comes the next. -/
theorem Quiet.exists_nextLine (h : Quiet p b q c) (h₀ : q.raster.dot = 0) :
    ∃ r, Quiet p b r c ∧ r.raster.line = q.raster.nextLine.line ∧ r.raster.dot = 0 := by
  have hn (r : Raster) (hl : r.line = q.raster.line) :
      r.nextLine.line = q.raster.nextLine.line := by
    unfold Raster.nextLine
    rw [hl]
    split <;> rfl
  obtain ⟨r, hr, hl, hd⟩ := h.exists_dot h₀ (Nat.le_refl 339)
  rcases r.raster.advance_cases r.mask.rendering with ⟨_, ha⟩ | ⟨_, ha⟩
  · -- the line has one dot more
    have ht : (r.tick c).raster = { r.raster with dot := r.raster.dot + 1 } :=
      (raster_tick r c).trans ha
    have ha' : (r.tick c).raster.advance (r.tick c).mask.rendering =
        (r.tick c).raster.nextLine := by
      refine Raster.advance_last ?_ _
      rw [ht, hd]
      exact Nat.le_refl _
    refine ⟨(r.tick c).tick c, hr.dot.dot, ?_, ?_⟩
    · rw [raster_tick, ha']
      refine hn _ ?_
      rw [ht]
      exact hl
    · rw [raster_tick, ha', Raster.dot_nextLine]
  · refine ⟨r.tick c, hr.dot, ?_, ?_⟩
    · rw [raster_tick, ha]
      exact hn _ hl
    · rw [raster_tick, ha, Raster.dot_nextLine]

/-- From the last line every visible line is come to. -/
theorem exists_quiet_line (hl : p.raster.line = preRenderLine) (hd : p.raster.dot = 0)
    (b : Board) {y : Nat} (hy : y < visibleLines) :
    ∃ q, Quiet p b q b ∧ q.raster.line = y ∧ q.raster.dot = 0 := by
  induction y with
  | zero =>
    obtain ⟨q, hq, hql, hqd⟩ := Quiet.start.exists_nextLine hd
    refine ⟨q, hq, ?_, hqd⟩
    rw [hql, Raster.nextLine, hl]
    rfl
  | succ y ih =>
    obtain ⟨q, hq, hql, hqd⟩ := ih (by omega)
    obtain ⟨r, hr, hrl, hrd⟩ := hq.exists_nextLine hqd
    refine ⟨r, hr, ?_, hrd⟩
    simp only [visibleLines] at hy
    have hlt : q.raster.line + 1 < linesPerFrame := by
      simp only [linesPerFrame]
      omega
    rw [hrl, Raster.nextLine_of_lt hlt, hql]

/-- **The background is a lookup.**  From the start of the last line on, with the background enabled
and no register and no bank touched, every pixel of every visible line is come to, and the pixel
that its dot puts in the line is the one that is looked up on the board.  The dot of the last column
also lays the sprites over the line: what they are laid over is the line that is looked up. -/
theorem background_is_lookup (hp : p.Reachable) (hl : p.raster.line = preRenderLine)
    (hd : p.raster.dot = 0) (hm : p.mask.background = true) (b : Board) {y x : Nat}
    (hy : y < visibleLines) (hx : x < 256) :
    (∃ q c, Quiet p b q c ∧ q.raster.line = y ∧ q.raster.dot = x + 1) ∧
      ∀ q c, Quiet p b q c → q.raster.line = y → q.raster.dot = x + 1 →
        (x < 255 → (q.tick c).line[x] = p.lookup b y x) ∧
          (x = 255 → (q.tick c).line =
            if q.mask.sprites then overlay (q.strips c) q.mask.spritesLeft (p.lookupLine b y)
            else p.lookupLine b y) := by
  constructor
  · obtain ⟨q, hq, hql, hqd⟩ := exists_quiet_line hl hd b hy
    obtain ⟨r, hr, hrl, hrd⟩ := hq.exists_dot (d := x + 1) hqd (by omega)
    exact ⟨r, b, hr, hrl.trans hql, hrd⟩
  · intro q c h hql hqd
    have hdr : p.Drawn b q := h.drawn hp.bounded hm hl hd
    subst hql
    constructor
    · intro hx'
      exact hdr.line_tick_getElem hm h.showsAs hy (by omega) hx (by omega)
    · intro hx'
      exact hdr.line_tick_last hm h.showsAs hy (by omega)

/-! ### A picture from power-on -/

/-- A picture unit at the start of the last line of its first frame, its background having been
enabled before the first dot. -/
def beforePicture : Ppu :=
  (fun p => p.tick .blank)^[preRenderLine * dotsPerLine] (({} : Ppu).write .blank 1 0x08).1

theorem reachable_beforePicture : beforePicture.Reachable :=
  (Reachable.initial.write .blank 1 0x08).iterate_tick .blank _

theorem standing_beforePicture :
    beforePicture.standing =
      Standing.tick^[preRenderLine * dotsPerLine] { mask := ⟨0x08⟩ } := by
  rw [beforePicture, standing_iterate_tick, standing_write]
  rfl

theorem raster_beforePicture : beforePicture.raster = ⟨preRenderLine, 0, false⟩ := by
  rw [← raster_standing, standing_beforePicture, Standing.raster_iterate_tick,
    Raster.iterate_advance _ (by decide), Nat.mul_div_cancel _ (by decide), Nat.mul_mod_left]

theorem mask_beforePicture : beforePicture.mask = ⟨0x08⟩ := by
  rw [← mask_standing, standing_beforePicture, Standing.mask_iterate_tick]

/-- Column 100 of line 17 of the picture after the first frame. -/
theorem background_is_lookup_first :
    beforePicture.Reachable ∧ beforePicture.raster.line = preRenderLine ∧
      beforePicture.raster.dot = 0 ∧ beforePicture.mask.background = true ∧
      ∃ q c, Quiet beforePicture .blank q c ∧ q.raster.line = 17 ∧ q.raster.dot = 101 ∧
        (q.tick c).line[100] = beforePicture.lookup .blank 17 100 := by
  have hl : beforePicture.raster.line = preRenderLine := by rw [raster_beforePicture]
  have hd : beforePicture.raster.dot = 0 := by rw [raster_beforePicture]
  have hm : beforePicture.mask.background = true := by
    rw [mask_beforePicture]
    decide
  obtain ⟨⟨q, c, hq, hql, hqd⟩, hall⟩ := background_is_lookup reachable_beforePicture hl hd hm
    .blank (y := 17) (x := 100) (by decide) (by decide)
  exact ⟨reachable_beforePicture, hl, hd, hm, q, c, hq, hql, hqd,
    (hall q c hq hql hqd).1 (by decide)⟩

-- The walk leaves the left tables five columns early: column 3 shows the first tile on the right.
example : ({ mask := ⟨0x0A⟩, scroll := { t := 31, fineX := 5 } } : Ppu).lookup
    { Board.blank with
      nametables := (Board.blank.nametables.set 0x400 2).set 0x7C0 2
      chr := (Board.blank.chr.write 0x20 0x80).write 0x28 0x80
      wired := .vertical } 0 3 = 11 := by decide +kernel

end Ppu
end Famicom
