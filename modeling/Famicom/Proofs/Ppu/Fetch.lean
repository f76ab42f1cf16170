/-
# The fetching of the background

The place that is being fetched, the latches and the shift registers make up the fetching of the
picture unit (`Ppu.Fetch`).  What a dot does to them hangs on the standing and on the board alone:
sprites have no part in it (`Ppu.fetch_tick`).
-/

import Famicom.Proofs.Ppu.Standing

namespace Famicom
namespace Ppu

/-- The place that is being fetched, with the latches and the shift registers. -/
structure Fetch where
  v : Nat := 0
  background : Background := {}
deriving DecidableEq, Repr

/-- The fetching of a picture unit. -/
def fetch (p : Ppu) : Fetch := ⟨p.scroll.v, p.background⟩

namespace Fetch

/-- Shift, and do the fetch that falls on this dot. -/
def step (f : Fetch) (s : Standing) (board : Board) : Fetch :=
  let phase := (s.raster.dot - 1) % 8
  let background := if s.mask.background then f.background.shift else f.background
  if phase = 7 then { v := Place.stepRight f.v, background }
  else { f with background := background.fetch board s.control.backgroundTable f.v phase }

/-- What a dot does while something is rendered. -/
def dot (f : Fetch) (s : Standing) (board : Board) : Fetch :=
  let f := if fetchesIn s.raster.dot then f.step s board else f
  if s.raster.dot = 256 then { f with v := Place.stepDown f.v }
  else if s.raster.dot = 257 then
    { v := Place.withColumnOf f.v s.start, background := f.background.load }
  else if s.raster.line = preRenderLine ∧ 280 ≤ s.raster.dot ∧ s.raster.dot ≤ 304 then
    { f with v := Place.withRowOf f.v s.start }
  else f

end Fetch

/-- A line fetches in dots 2 to 257 for itself, and in dots 321 to 337 the first two tiles of the
next. -/
theorem fetchesIn_iff {d : Nat} :
    fetchesIn d = true ↔ 2 ≤ d ∧ d ≤ 257 ∨ 321 ≤ d ∧ d ≤ 337 := by
  rw [fetchesIn, Bool.or_eq_true, Bool.and_eq_true, Bool.and_eq_true, decide_eq_true_eq,
    decide_eq_true_eq, decide_eq_true_eq, decide_eq_true_eq]

/-- The picture unit with another fetching. -/
def withFetch (p : Ppu) (f : Fetch) : Ppu :=
  { p with scroll := { p.scroll with v := f.v }, background := f.background }

/-- A fetch of the picture unit is a step of the fetching, with the registers read off the
standing. -/
theorem fetchBackground_eq (p : Ppu) (board : Board) :
    p.fetchBackground board = p.withFetch (p.fetch.step p.standing board) := by
  unfold fetchBackground Fetch.step
  dsimp only [standing, fetch]
  split <;> rfl

/-! ### What a dot does to the fetching

Each part of a dot either is a fetch or leaves the fetching alone. -/

/-- **The background is the fetching and nothing else.** -/
theorem backgroundDot_eq (p : Ppu) (board : Board) :
    p.backgroundDot board = p.withFetch (p.fetch.dot p.standing board) := by
  have hf : (if fetchesIn p.raster.dot then p.fetchBackground board else p) =
      p.withFetch (if fetchesIn p.raster.dot then p.fetch.step p.standing board else p.fetch) := by
    split
    · exact fetchBackground_eq p board
    · rfl
  unfold backgroundDot Fetch.dot
  dsimp only
  rw [raster_standing, hf]
  generalize (if fetchesIn p.raster.dot then p.fetch.step p.standing board else p.fetch) = f
  rw [show (p.withFetch f).raster = p.raster from rfl]
  split
  · rfl
  · split
    · rfl
    · split <;> rfl

/-- A dot of the background, seen from the fetching. -/
theorem fetch_backgroundDot (p : Ppu) (board : Board) :
    (p.backgroundDot board).fetch = p.fetch.dot p.standing board := by
  rw [backgroundDot_eq]
  rfl

/-- The sprites of the line, its pixels and the palettes are left alone. -/
structure Spared (p q : Ppu) : Prop where
  lineSprites : q.lineSprites = p.lineSprites
  line : q.line = p.line
  palette : q.palette = p.palette

/-- A dot of the background leaves everything that is drawn. -/
theorem spared_backgroundDot (p : Ppu) (board : Board) : Spared p (p.backgroundDot board) := by
  rw [backgroundDot_eq]
  exact ⟨rfl, rfl, rfl⟩

/-- The search for sprites does not disturb the fetching. -/
theorem fetch_evaluateSprites (p : Ppu) : p.evaluateSprites.fetch = p.fetch := by
  unfold evaluateSprites
  split <;> rfl

/-- Neither does the drawing of the sprites. -/
theorem fetch_drawSprites (p : Ppu) (board : Board) : (p.drawSprites board).fetch = p.fetch := rfl

/-- Showing the line does not disturb the fetching either. -/
theorem fetch_showLine (p : Ppu) : p.showLine.fetch = p.fetch := by
  unfold showLine
  split <;> rfl

/-- With rendering on, the fetching goes on by a dot; with rendering off, it stands still. -/
theorem fetch_fetched (p : Ppu) (board : Board) :
    (p.fetched board).fetch =
      if p.mask.rendering then p.fetch.dot p.standing board else p.fetch := by
  have he : (if p.raster.dot = 1 then p.evaluateSprites else p).standing = p.standing ∧
      (if p.raster.dot = 1 then p.evaluateSprites else p).fetch = p.fetch := by
    split
    · exact ⟨standing_evaluateSprites p, fetch_evaluateSprites p⟩
    · exact ⟨rfl, rfl⟩
  unfold fetched
  dsimp only
  generalize (if p.raster.dot = 1 then p.evaluateSprites else p) = q at he ⊢
  have hm : q.mask = p.mask := congrArg Standing.mask he.1
  rw [hm, ← he.1, ← he.2]
  split
  · exact fetch_backgroundDot q board
  · rfl

/-- A visible dot fetches like any other. -/
theorem fetch_visibleDot (p : Ppu) (board : Board) :
    (p.visibleDot board).fetch =
      if p.mask.rendering then p.fetch.dot p.standing board else p.fetch := by
  have hf := fetch_fetched p board
  by_cases h : 1 ≤ p.raster.dot ∧ p.raster.dot ≤ 256
  · have hp : (p.plotted board (column_lt h)).fetch = (p.fetched board).fetch := rfl
    rcases Nat.lt_or_eq_of_le h.2 with h₂ | h₂
    · rw [visibleDot_of_lt h.1 h₂, hp, hf]
    · rw [visibleDot_last h₂, ← hf]
      dsimp only
      rw [fetch_showLine]
      split
      · rw [fetch_drawSprites]
        exact hp
      · exact hp
  · rw [visibleDot_of_not h, hf]

/-- The same in the pre-render line, where the place comes back to the top as well. -/
theorem fetch_preRenderDot (p : Ppu) (board : Board) :
    (p.preRenderDot board).fetch =
      if p.mask.rendering then p.fetch.dot p.standing board else p.fetch := by
  have hc (q : Ppu) (hf : q.fetch = p.fetch) (hm : q.mask = p.mask)
      (hd : q.fetch.dot q.standing board = p.fetch.dot p.standing board) :
      (if q.mask.rendering then q.backgroundDot board else q).fetch =
        if p.mask.rendering then p.fetch.dot p.standing board else p.fetch := by
    rw [hm]
    split
    · rw [fetch_backgroundDot, hd]
    · exact hf
  unfold preRenderDot
  dsimp only
  split
  · exact hc _ rfl rfl rfl
  · exact hc p rfl rfl rfl

/-- **The fetching goes on by itself**, on the lines that are drawn and on the last. -/
theorem fetch_tick (p : Ppu) (board : Board) :
    (p.tick board).fetch =
      if p.mask.rendering ∧ (p.raster.line < visibleLines ∨ p.raster.line = preRenderLine) then
        p.fetch.dot p.standing board
      else p.fetch := by
  show (p.draw board).fetch = _
  unfold draw
  by_cases hv : p.raster.line < visibleLines
  · rw [if_pos hv, fetch_visibleDot]
    by_cases hm : p.mask.rendering = true
    · rw [if_pos hm, if_pos ⟨hm, .inl hv⟩]
    · rw [if_neg hm, if_neg fun h => hm h.1]
  · rw [if_neg hv]
    by_cases hp : p.raster.line = preRenderLine
    · rw [if_pos hp, fetch_preRenderDot]
      by_cases hm : p.mask.rendering = true
      · rw [if_pos hm, if_pos ⟨hm, .inr hp⟩]
      · rw [if_neg hm, if_neg fun h => hm h.1]
    · have hn : ¬(p.mask.rendering = true ∧
          (p.raster.line < visibleLines ∨ p.raster.line = preRenderLine)) :=
        fun h => h.2.elim hv hp
      rw [if_neg hp, if_neg hn]
      split <;> rfl

/-! ### What a dot does to the line -/

/-- The background pixel of column `x`. -/
def Fetch.pixel (f : Fetch) (s : Standing) (x : Nat) : UInt8 :=
  if s.mask.background && unclipped s.mask.backgroundLeft x then f.background.pixel s.fineX else 0

/-- The search for sprites leaves the pixels of the line. -/
theorem line_evaluateSprites (p : Ppu) : p.evaluateSprites.line = p.line := by
  unfold evaluateSprites
  split <;> rfl

/-- The fetches of a dot plot nothing. -/
theorem line_fetched (p : Ppu) (board : Board) : (p.fetched board).line = p.line := by
  have he : (if p.raster.dot = 1 then p.evaluateSprites else p).line = p.line := by
    split
    · exact line_evaluateSprites p
    · rfl
  unfold fetched
  dsimp only
  generalize (if p.raster.dot = 1 then p.evaluateSprites else p) = q at he ⊢
  split
  · exact (spared_backgroundDot q board).line.trans he
  · exact he

/-- The sprites of a line are looked for in its first dot and are kept from then on. -/
theorem lineSprites_fetched {p : Ppu} (h : p.raster.dot ≠ 1) (board : Board) :
    (p.fetched board).lineSprites = p.lineSprites := by
  unfold fetched
  rw [if_neg h]
  dsimp only
  split
  · exact (spared_backgroundDot p board).lineSprites
  · rfl

/-- After the search of dot 1, the strips of the line stay as they are. -/
theorem strips_fetched {p : Ppu} (h : p.raster.dot ≠ 1) (board : Board) :
    (p.fetched board).strips board = p.strips board := by
  have hs := standing_fetched p board
  have hr : (p.fetched board).raster = p.raster := congrArg Standing.raster hs
  have hc : (p.fetched board).control = p.control := congrArg Standing.control hs
  rw [strips, strips, hr, hc, lineSprites_fetched h]

/-- Showing the line leaves the line, its sprites and the status. -/
theorem spared_showLine (p : Ppu) : Spared p p.showLine := by
  unfold showLine
  split <;> exact ⟨rfl, rfl, rfl⟩

/-- A dot of a visible line leaves on the line what its drawing has. -/
theorem line_tick_of_visible {p : Ppu} (hl : p.raster.line < visibleLines) (board : Board) :
    (p.tick board).line = (p.visibleDot board).line := by
  show (p.draw board).line = _
  rw [draw, if_pos hl]

/-- What is fetched in a dot is what its pixel is taken from. -/
theorem line_plotted {p : Ppu} (hl : p.raster.line < visibleLines) (board : Board)
    (h : 1 ≤ p.raster.dot ∧ p.raster.dot ≤ 256) :
    (p.plotted board (column_lt h)).line =
      p.line.set (p.raster.dot - 1)
        ((p.tick board).fetch.pixel p.standing (p.raster.dot - 1)) (column_lt h) := by
  have ht : (p.tick board).fetch = (p.fetched board).fetch := by
    show (p.draw board).fetch = _
    rw [draw, if_pos hl, fetch_visibleDot, fetch_fetched]
  rw [ht, ← standing_fetched p board, ← line_fetched p board]
  rfl

/-- **The pixel that a dot puts in the line.** -/
theorem line_tick {p : Ppu} (hl : p.raster.line < visibleLines) (h₁ : 1 ≤ p.raster.dot)
    (h₂ : p.raster.dot < 256) (board : Board) :
    (p.tick board).line =
      p.line.set (p.raster.dot - 1)
        ((p.tick board).fetch.pixel p.standing (p.raster.dot - 1)) := by
  rw [← line_plotted hl board ⟨h₁, Nat.le_of_lt h₂⟩, line_tick_of_visible hl,
    visibleDot_of_lt h₁ h₂]

/-- A line is complete with its last pixel. -/
theorem set_last_eq_ofFn {pixels : Vector UInt8 256} {pixel : Nat → UInt8}
    (h : ∀ x (hx : x < 256), x < 255 → pixels[x] = pixel x) :
    pixels.set 255 (pixel 255) (by decide) = Vector.ofFn fun x => pixel x := by
  refine Vector.ext fun x hx => ?_
  rw [Vector.getElem_ofFn]
  by_cases he : x = 255
  · subst he
    exact Vector.getElem_set_self _
  · rw [Vector.getElem_set_ne _ _ (Ne.symm he)]
    exact h x hx (by omega)

/-- **The line that the last visible dot leaves**: its own pixel, and the sprites over all. -/
theorem line_tick_last {p : Ppu} (hl : p.raster.line < visibleLines) (hd : p.raster.dot = 256)
    (board : Board) :
    (p.tick board).line =
      let background := p.line.set 255 ((p.tick board).fetch.pixel p.standing 255)
      if p.mask.sprites then overlay (p.strips board) p.mask.spritesLeft background
      else background := by
  have h : 1 ≤ p.raster.dot ∧ p.raster.dot ≤ 256 := by omega
  have hp := line_plotted hl board h
  have hs := standing_fetched p board
  have hm : (p.plotted board (column_lt h)).mask = p.mask := congrArg Standing.mask hs
  have hq : (p.plotted board (column_lt h)).strips board = p.strips board :=
    strips_fetched (by omega) board
  have h₂₅₅ : p.raster.dot - 1 = 255 := by omega
  simp only [h₂₅₅] at hp
  rw [line_tick_of_visible hl, visibleDot_last hd]
  dsimp only
  rw [(spared_showLine _).line, ← hp, ← hm, ← hq]
  split <;> rfl

end Ppu
end Famicom
