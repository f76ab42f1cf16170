/-
# What is on the screen

The screen changes in one dot of each visible line, the last that draws: it puts the line there
that has been drawn (`Ppu.frame_call`).  Whatever the processor does with the registers, and
whether the frame is cut short or not, from one vertical blank to the next each row is put there
once, from the top to the bottom (`Ppu.rows_of_isChain`).  What carries this is a number that can
be told from the raster: the rows since the last vertical blank (`Ppu.Raster.rowsShown`).

A line in which nothing is rendered comes out in one colour, whatever the line before it was like:
each of its dots puts a pixel into it that shows the backdrop (`Ppu.line_of_dark`).
-/

import Famicom.Proofs.Board.Blank
import Famicom.Proofs.Ppu.Calls
import Famicom.Proofs.Ppu.WellFormed
import Mathlib.Data.List.Chain

namespace Famicom
namespace Ppu

/-- The row that the dot puts on the screen, if it is one that does. -/
def Raster.row? (r : Raster) : Option Nat :=
  if r.line < 240 ∧ r.dot = 256 then some r.line else none

/-- The row that a call puts on the screen, if it is a dot that does. -/
def shows? (p : Ppu) : Call → Option Nat
  | .tick _ => p.raster.row?
  | _ => none

/-! ### One dot -/

section Dot

variable {p : Ppu} {y : Nat}

/-- Row `y` of the screen is shown at dot 256 of line `y`. -/
theorem Raster.row?_eq_some {r : Raster} :
    r.row? = some y ↔ r.line < 240 ∧ r.dot = 256 ∧ r.line = y := by
  unfold row?
  split
  · next h => rw [Option.some.injEq]; tauto
  · next h => simp only [reduceCtorEq, false_iff]; tauto

/-- At every other place of the raster no row is shown. -/
theorem Raster.row?_eq_none {r : Raster} : r.row? = none ↔ ¬(r.line < 240 ∧ r.dot = 256) := by
  unfold row?
  split <;> simp_all

/-- The fetches of a dot leave the screen. -/
theorem frame_fetched (p : Ppu) (board : Board) : (p.fetched board).frame = p.frame := by
  have he : (if p.raster.dot = 1 then p.evaluateSprites else p).frame = p.frame := by
    unfold evaluateSprites
    split
    · split <;> rfl
    · rfl
  unfold fetched
  dsimp only
  generalize (if p.raster.dot = 1 then p.evaluateSprites else p) = q at he ⊢
  split
  · rw [backgroundDot_eq]
    exact he
  · exact he

/-- The pre-render line shows nothing. -/
theorem frame_preRenderDot (p : Ppu) (board : Board) : (p.preRenderDot board).frame = p.frame := by
  have hc :
      (if p.raster.dot = 1 then { p with status := p.status.clear } else p).frame = p.frame := by
    split <;> rfl
  unfold preRenderDot
  dsimp only
  generalize (if p.raster.dot = 1 then { p with status := p.status.clear } else p) = q at hc ⊢
  split
  · rw [backgroundDot_eq]
    exact hc
  · exact hc

/-- Showing a line changes the row of that line, and no other. -/
theorem frame_showLine (hy : y < 240) (hr : p.raster.line = y) :
    p.showLine.frame = p.frame.set y p.lineColours := by
  subst hr
  rw [showLine, dif_pos hy]

/-- All other dots leave the screen alone. -/
theorem frame_tick_of_not (h : p.raster.row? = none) (board : Board) :
    (p.tick board).frame = p.frame := by
  rw [Raster.row?_eq_none] at h
  show (p.draw board).frame = _
  unfold draw
  split
  · next hl =>
    by_cases hd : 1 ≤ p.raster.dot ∧ p.raster.dot ≤ 256
    · have hn : p.raster.dot ≠ 256 := fun he => h ⟨hl, he⟩
      rw [visibleDot_of_lt hd.1 (by omega)]
      exact frame_fetched p board
    · rw [visibleDot_of_not hd, frame_fetched]
  · split
    · exact frame_preRenderDot p board
    · split <;> rfl

/-- **The dot that puts a line on the screen** puts it in its row, in the colours of the
palettes. -/
theorem frame_tick (h : p.raster.row? = some y) (board : Board) : ∃ hy : y < 240,
    (p.tick board).frame =
      p.frame.set y ((p.tick board).line.map (p.palette.colour p.mask.grayscale)) := by
  obtain ⟨hl, hd, rfl⟩ := Raster.row?_eq_some.1 h
  refine ⟨hl, ?_⟩
  have hv : (p.tick board).frame = (p.visibleDot board).frame := by
    show (p.draw board).frame = _
    rw [draw]
    exact congrArg Ppu.frame (if_pos hl)
  -- neither plotting the last pixel nor drawing the sprites touches the screen or the palette
  let q := p.plotted board (column_lt (by omega))
  have hs : q.standing = p.standing := standing_fetched p board
  have hf : q.frame = p.frame := frame_fetched p board
  have hp : q.palette = p.palette := palette_fetched p board
  have hm : q.mask = p.mask := congrArg Standing.mask hs
  have hr : q.raster.line = p.raster.line := congrArg (fun s => s.raster.line) hs
  let q' := if q.mask.sprites then q.drawSprites board else q
  have hq :
      q'.raster = q.raster ∧ q'.frame = q.frame ∧ q'.palette = q.palette ∧ q'.mask = q.mask := by
    dsimp only [q']
    split <;> exact ⟨rfl, rfl, rfl, rfl⟩
  obtain ⟨hr', hf', hp', hm'⟩ := hq
  have hw := frame_showLine (p := q') hl ((congrArg Raster.line hr').trans hr)
  rw [hv, line_tick_of_visible hl, visibleDot_last hd]
  rw [lineColours, hp', hm', hf', hp, hm, hf, ← (spared_showLine q').line] at hw
  exact hw

end Dot

/-- **What a call does to the screen**: nothing, or it puts a row there. -/
theorem frame_call (p : Ppu) (x : Call) (h : p.shows? x = none) : (p.call x).frame = p.frame := by
  cases x with
  | tick board => exact frame_tick_of_not h board
  | read | write | writeOam | takeNmi | clearFrameReady => exact (picture_call rfl p).2

/-- **The row that a dot shows** has the colours that the palette gives the line at that moment. -/
theorem frame_call_of_shows? {p : Ppu} {x : Call} {y : Nat} (h : p.shows? x = some y) :
    ∃ hy : y < 240, (p.call x).frame =
      p.frame.set y ((p.call x).line.map (p.palette.colour p.mask.grayscale)) := by
  cases x with
  | tick board => exact frame_tick h board
  | read | write | writeOam | takeNmi | clearFrameReady => cases h

/-! ### The dots of a run -/

/-- A dot of a run: the picture unit before it, and the board that it is drawn on. -/
structure Stroke where
  ppu : Ppu
  board : Board

namespace Stroke

/-- The picture unit after the dot. -/
def after (d : Stroke) : Ppu := d.ppu.tick d.board

/-- Whether the vertical blank starts in the dot. -/
def startsBlank (d : Stroke) : Bool := d.ppu.standing.startsVblank

/-- The line and the place there. -/
def place (d : Stroke) : Nat × Nat := (d.ppu.raster.line, d.ppu.raster.dot)

/-- The row that the dot puts on the screen, if it does. -/
def row? (d : Stroke) : Option Nat := d.ppu.shows? (.tick d.board)

/-- No dot comes between the two. -/
structure Follows (d e : Stroke) : Prop where
  raster : e.ppu.raster = d.after.raster
  line : e.ppu.line = d.after.line

end Stroke

/-- The dots of a run, in order. -/
def strokes (p : Ppu) : List Call → List Stroke
  | [] => []
  | .tick board :: rest => ⟨p, board⟩ :: (p.tick board).strokes rest
  | x :: rest => (p.call x).strokes rest

/-- The first dot finds the raster and the line as they are. -/
theorem head_strokes {p : Ppu} {calls : List Call} {d : Stroke} (h : d ∈ (p.strokes calls).head?) :
    d.ppu.raster = p.raster ∧ d.ppu.line = p.line := by
  induction calls generalizing p with
  | nil => cases h
  | cons x rest ih =>
    cases x with
    | tick board =>
      obtain rfl := Option.some.inj h
      exact ⟨rfl, rfl⟩
    | read | write | writeOam | takeNmi | clearFrameReady =>
      obtain ⟨hr, hl⟩ := ih h
      exact ⟨hr.trans (standing_call rfl p).1, hl.trans (picture_call rfl p).1⟩

/-- **One dot follows the other.** -/
theorem isChain_strokes (p : Ppu) (calls : List Call) :
    (p.strokes calls).IsChain Stroke.Follows := by
  induction calls generalizing p with
  | nil => exact .nil
  | cons x rest ih =>
    cases x with
    | tick board =>
      refine List.isChain_cons.2 ⟨fun e he => ?_, ih (p.tick board)⟩
      obtain ⟨hr, hl⟩ := head_strokes he
      exact ⟨hr, hl⟩
    | read | write | writeOam | takeNmi | clearFrameReady => exact ih _

/-- Any stretch of a run is a chain of dots too. -/
theorem isChain_of_isInfix {p : Ppu} {calls : List Call} {part : List Stroke}
    (h : part <:+: p.strokes calls) : part.IsChain Stroke.Follows := by
  obtain ⟨before, behind, h⟩ := h
  have hc := isChain_strokes p calls
  rw [← h] at hc
  exact hc.left_of_append.right_of_append

/-- Every dot of a run starts from a state that calls lead to. -/
theorem reachable_of_mem_strokes {p : Ppu} (hp : p.Reachable) {calls : List Call} {d : Stroke}
    (h : d ∈ p.strokes calls) : d.ppu.Reachable := by
  induction calls generalizing p with
  | nil => cases h
  | cons x rest ih =>
    cases x with
    | tick board =>
      obtain rfl | h := List.mem_cons.1 h
      · exact hp
      · exact ih (hp.tick board) h
    | read | write | writeOam | takeNmi | clearFrameReady => exact ih (hp.call _) h

/-! ### The rows -/

/-- How many rows have been put on the screen since the vertical blank started last. -/
def Raster.rowsShown (r : Raster) : Nat :=
  if r.line < 240 then if 256 < r.dot then r.line + 1 else r.line
  else if r.line = 240 ∨ r.line = 241 ∧ r.dot ≤ 1 then 240
  else 0

namespace Raster

variable {r : Raster} {y : Nat}

/-- At dot 256 of line `y` the rows above it have been shown. -/
theorem rowsShown_of_row? (h : r.row? = some y) : r.rowsShown = y ∧ y < 240 := by
  obtain ⟨hl, hd, rfl⟩ := row?_eq_some.1 h
  refine ⟨?_, hl⟩
  rw [rowsShown, if_pos hl, if_neg (by omega)]

/-- A dot that puts a row on the screen adds one to the rows. -/
theorem rowsShown_advance_of_row? (h : r.row? = some y) (rendering : Bool) :
    (r.advance rendering).rowsShown = y + 1 := by
  obtain ⟨hl, hd, rfl⟩ := row?_eq_some.1 h
  rw [advance_of_lt (by simp only [dotsPerLine]; omega) (by omega), rowsShown, if_pos hl,
    if_pos (by dsimp only; omega)]

/-- The vertical blank starts when all rows are there, and there is none left then. -/
theorem rowsShown_of_blank (hl : r.line = 241) (hd : r.dot = 1) (rendering : Bool) :
    r.rowsShown = 240 ∧ (r.advance rendering).rowsShown = 0 := by
  rw [advance_of_lt (by simp only [dotsPerLine]; omega) (by omega)]
  unfold rowsShown
  dsimp only
  constructor
  · rw [if_neg (by omega), if_pos (by omega)]
  · rw [if_neg (by omega), if_neg (by omega)]

/-- **Every other dot leaves their number as it is**, also where a line or a frame ends. -/
theorem rowsShown_advance_of_not (hl : r.line < linesPerFrame) (hr : r.row? = none)
    (hb : ¬(r.line = 241 ∧ r.dot = 1)) (rendering : Bool) :
    (r.advance rendering).rowsShown = r.rowsShown := by
  rw [row?_eq_none] at hr
  obtain ⟨-, ha⟩ | ⟨hd, ha⟩ := r.advance_cases rendering
  · rw [ha]
    unfold rowsShown
    dsimp only
    split <;> split <;> split <;> omega
  · have hn := line_nextLine hl
    have h₀ := r.dot_nextLine
    rw [ha]
    unfold rowsShown
    rw [hn, h₀, nextRow, if_neg (Nat.not_lt_zero 256), if_pos (show 256 < r.dot by omega)]
    unfold linesPerFrame at hl ⊢
    repeat' split
    all_goals omega

end Raster

section Rows

variable {d e : Stroke} {between : List Stroke}

/-- The vertical blank starts at dot 1 of line 241. -/
theorem Stroke.startsBlank_iff :
    d.startsBlank = true ↔ d.ppu.raster.line = 241 ∧ d.ppu.raster.dot = 1 :=
  Standing.startsVblank_iff

/-- A dot takes the raster to its next place, with rendering on or off. -/
theorem Stroke.raster_after (d : Stroke) :
    d.after.raster = d.ppu.raster.advance d.ppu.mask.rendering := raster_tick d.ppu d.board

/-- **The rows that are missing come before the next vertical blank**, one after the other. -/
theorem rows_of_isChain (hc : (d :: between ++ [e]).IsChain Stroke.Follows)
    (hr : ∀ k ∈ d :: between ++ [e], k.ppu.raster.line < linesPerFrame) (he : e.startsBlank = true)
    (hb : ∀ k ∈ between, k.startsBlank = false) :
    between.filterMap Stroke.row? =
      List.range' d.after.raster.rowsShown (240 - d.after.raster.rowsShown) := by
  -- the induction is on the dots between; the rows still to come are those from `rowsShown` on
  induction between generalizing d with
  | nil =>
    have hf : d.Follows e := (List.isChain_cons_cons.1 hc).1
    obtain ⟨hl, hd⟩ := Stroke.startsBlank_iff.1 he
    rw [← hf.raster, (Raster.rowsShown_of_blank hl hd false).1]
    rfl
  | cons k rest ih =>
    obtain ⟨hf, hc⟩ := List.isChain_cons_cons.1 hc
    obtain ⟨hk, hb⟩ := List.forall_mem_cons.1 hb
    have next := ih hc (fun j hj => hr j (List.mem_cons_of_mem _ hj)) hb
    have hl := hr k (List.mem_cons_of_mem _ (List.mem_cons_self ..))
    rw [k.raster_after] at next
    rw [← hf.raster]
    cases hy : k.row? with
    | none =>
      have hn : ¬(k.ppu.raster.line = 241 ∧ k.ppu.raster.dot = 1) := by
        rw [← Stroke.startsBlank_iff, hk]
        exact Bool.false_ne_true
      rw [List.filterMap_cons_none hy, next, Raster.rowsShown_advance_of_not hl hy hn]
    -- the dot shows the next row
    | some y =>
      obtain ⟨hs, hlt⟩ := Raster.rowsShown_of_row? hy
      have hm : 240 - y = 240 - (y + 1) + 1 := by omega
      rw [List.filterMap_cons_some hy, next, Raster.rowsShown_advance_of_row? hy, hs, hm,
        List.range'_succ]

end Rows

/-! ### A line in which nothing is rendered -/

section Dark

variable {p : Ppu} {y : Nat}

/-- A dot in which nothing is rendered puts a pixel of the backdrop in the line. -/
theorem line_tick_of_dark (hl : p.raster.line < 240) (h : 1 ≤ p.raster.dot ∧ p.raster.dot ≤ 256)
    (hm : p.mask.rendering = false) (board : Board) :
    (p.tick board).line = p.line.set (p.raster.dot - 1) 0 (column_lt h) := by
  obtain ⟨hg, hs⟩ := Bool.or_eq_false_iff.1 hm
  have hx (x : Nat) : (p.tick board).fetch.pixel p.standing x = 0 := by
    rw [Fetch.pixel, mask_standing, hg, Bool.false_and, if_neg Bool.false_ne_true]
  rcases Nat.lt_or_eq_of_le h.2 with h₂ | h₂
  · rw [line_tick hl h.1 h₂, hx]
  · rw [line_tick_last hl h₂, hx, hs]
    dsimp only
    rw [if_neg Bool.false_ne_true]
    simp only [h₂]

variable {before : List Stroke} {d : Stroke}

/-- Dots at given places, and the last of them. -/
theorem places_concat {n : Nat} {place : Nat → Nat × Nat}
    (h : (before ++ [d]).map Stroke.place = (List.range (n + 1)).map place) :
    before.map Stroke.place = (List.range n).map place ∧ d.place = place n := by
  rw [List.range_succ, List.map_append, List.map_append] at h
  obtain ⟨hb, hd⟩ := List.append_inj' h rfl
  exact ⟨hb, List.singleton_inj.1 hd⟩

/-- The last of so many dots of a line draws the column that comes next. -/
theorem Stroke.line_after_of_dark (hn : before.length < 256) (hy : y < 240)
    (hp : (before ++ [d]).map Stroke.place =
      (List.range (before.length + 1)).map fun x => (y, x + 1))
    (hm : d.ppu.mask.rendering = false) : d.after.line = d.ppu.line.set before.length 0 := by
  obtain ⟨hl, hd⟩ := Prod.mk.inj (places_concat hp).2
  have hk := line_tick_of_dark (p := d.ppu) (hl ▸ hy) (by omega) hm d.board
  simp only [hd, Nat.add_sub_cancel] at hk
  exact hk

/-- **The columns that have been drawn show the backdrop.** -/
theorem line_of_dark (hc : (before ++ [d]).IsChain Stroke.Follows) (hn : before.length < 256)
    (hy : y < 240)
    (hp : (before ++ [d]).map Stroke.place =
      (List.range (before.length + 1)).map fun x => (y, x + 1))
    (hm : ∀ k ∈ before ++ [d], k.ppu.mask.rendering = false) {x : Nat} (hx : x ≤ before.length) :
    d.after.line[x] = 0 := by
  -- the induction is on the dots of the line so far: each plots one column, and leaves the others
  induction before using List.reverseRecOn generalizing d x with
  | nil =>
    obtain rfl := Nat.le_zero.1 hx
    simp only [Stroke.line_after_of_dark hn hy hp (hm d (List.mem_singleton_self d))]
    exact Vector.getElem_set_self _
  | append_singleton before k ih =>
    have hd := Stroke.line_after_of_dark hn hy hp
      (hm d (List.mem_append_right _ (List.mem_singleton_self d)))
    obtain ⟨hb, -, hf⟩ := List.isChain_append.1 hc
    have hl : d.ppu.line = k.after.line := (hf k List.getLast?_concat d rfl).line
    simp only [List.length_append, List.length_singleton] at hn hx hp hd
    have hk : x ≤ before.length → k.after.line[x] = 0 :=
      ih hb (Nat.lt_of_succ_lt hn) (places_concat hp).1 fun j hj => hm j (List.mem_append_left _ hj)
    simp only [hd, hl]
    rw [Vector.getElem_set]
    split
    · rfl
    · exact hk (by omega)

/-- The colour of the backdrop is that of the first cell of palette memory. -/
theorem colours_backdrop {palette : Palette} (h : ∀ c ∈ palette.cells, c < 64) (grayscale : Bool) :
    colours[(if grayscale then palette.cells[0] &&& 0x30 else palette.cells[0]).toNat]? =
      some (palette.colour grayscale 0) := by
  have hc : palette.cells[0].toNat < 64 :=
    UInt8.lt_iff_toNat_lt.1 (h _ (Vector.getElem_mem (by decide)))
  have hi : (if grayscale then palette.cells[0] &&& 0x30 else palette.cells[0]).toNat =
      (palette.read (0 : UInt8).toNat &&& if grayscale then 0x30 else 0x3F).toNat % 64 := by
    have hr : palette.read (0 : UInt8).toNat = palette.cells[0] := rfl
    have ha (mask : UInt8) : (palette.cells[0] &&& mask).toNat < 64 := by
      rw [UInt8.toNat_and]
      exact Nat.lt_of_le_of_lt Nat.and_le_left hc
    rw [hr, Nat.mod_eq_of_lt (ha _)]
    cases grayscale with
    | true => rfl
    | false =>
      rw [if_neg Bool.false_ne_true, if_neg Bool.false_ne_true, UInt8.toNat_and]
      exact ((Nat.and_two_pow_sub_one_eq_mod _ 6).trans (Nat.mod_eq_of_lt hc)).symm
  rw [hi]
  exact Vector.getElem?_eq_getElem _

/-- **A line in which nothing was rendered is a row of one colour.** -/
theorem frame_of_dark (hc : (before ++ [d]).IsChain Stroke.Follows) (hy : y < 240)
    (hp : (before ++ [d]).map Stroke.place = (List.range 256).map fun x => (y, x + 1))
    (hm : ∀ k ∈ before ++ [d], k.ppu.mask.rendering = false)
    (h : ∀ c ∈ d.ppu.palette.cells, c < 64) {x : Nat} (hx : x < 256) :
    colours[(if d.ppu.mask.grayscale then d.ppu.palette.cells[0] &&& 0x30
      else d.ppu.palette.cells[0]).toNat]? = some d.after.frame[y][x] := by
  have hn : before.length + 1 = 256 := by simpa using congrArg List.length hp
  rw [← hn] at hp
  obtain ⟨hl, hd⟩ := Prod.mk.inj (places_concat hp).2
  have hr : d.ppu.raster.row? = some y := Raster.row?_eq_some.2 ⟨hl ▸ hy, hd.trans hn, hl⟩
  obtain ⟨_, hf⟩ := frame_tick hr d.board
  have h₀ : d.after.line[x] = 0 := line_of_dark hc (by omega) hy hp hm (by omega)
  have hw : d.after.frame[y] = d.after.line.map (d.ppu.palette.colour d.ppu.mask.grayscale) := by
    show (d.ppu.tick d.board).frame[y] = _
    simp only [hf]
    exact Vector.getElem_set_self _
  rw [hw, Vector.getElem_map, h₀]
  exact colours_backdrop h _

end Dark

/-- **What is on the screen.**  Nothing but the last dot of a visible line that draws changes the
screen, and it puts the line that has been drawn in its row, in the colours that the palettes give
its pixels then.  So whatever is asked of the picture unit between the dots, from one vertical
blank to the next all rows are put on the screen, each once, from the top to the bottom; and a line
in which nothing was rendered while it was drawn is a row of one colour, that of the backdrop. -/
theorem rows_on_screen (calls : List Call) :
    (∀ (p : Ppu) x, p.shows? x = none → (p.call x).frame = p.frame) ∧
    (∀ (p : Ppu) x y, p.shows? x = some y → ∃ hy : y < 240,
      let row := (p.call x).line.map (p.palette.colour p.mask.grayscale)
      (p.call x).frame = p.frame.set y row ∧ ∀ c ∈ row, c ∈ colours) ∧
    (∀ d between e, d :: between ++ [e] <:+: strokes {} calls →
      d.startsBlank = true → e.startsBlank = true → (∀ k ∈ between, k.startsBlank = false) →
        between.filterMap Stroke.row? = List.range 240) ∧
    (∀ before d y (hy : y < 240), before ++ [d] <:+: strokes {} calls →
      (before ++ [d]).map Stroke.place = ((List.range 256).map fun x => (y, x + 1)) →
      (∀ k ∈ before ++ [d], k.ppu.mask.rendering = false) →
        let backdrop := d.ppu.palette.cells[0]
        ∀ x (hx : x < 256),
          colours[(if d.ppu.mask.grayscale then backdrop &&& 0x30 else backdrop).toNat]? =
            some d.after.frame[y][x]) := by
  have reachable {d : Stroke} (h : d ∈ strokes {} calls) : d.ppu.Reachable :=
    reachable_of_mem_strokes .initial h
  refine ⟨frame_call, fun p x y h => ?_, fun d between e hi hd he hb => ?_,
    fun before d y hy hi hp hm x hx => ?_⟩
  · obtain ⟨hy, hf⟩ := frame_call_of_shows? h
    refine ⟨hy, hf, fun c hc => ?_⟩
    obtain ⟨pixel, -, rfl⟩ := Vector.mem_map.1 hc
    exact Vector.getElem_mem _
  · -- after a vertical blank no row has been shown, and before the next one all have
    obtain ⟨hl, hd⟩ := Stroke.startsBlank_iff.1 hd
    have hr : ∀ k ∈ d :: between ++ [e], k.ppu.raster.line < linesPerFrame := fun k hk =>
      (reachable (hi.subset hk)).bounded.line_lt
    rw [rows_of_isChain (isChain_of_isInfix hi) hr he hb, d.raster_after,
      (Raster.rowsShown_of_blank hl hd _).2]
    exact List.range_eq_range'.symm
  · have hd : d ∈ strokes {} calls :=
      hi.subset (List.mem_append_right _ (List.mem_singleton_self d))
    exact frame_of_dark (isChain_of_isInfix hi) hy hp hm (reachable hd).wellFormed.cell_lt hx

/-- The dots of two runs, one after the other. -/
theorem strokes_append (p : Ppu) (calls calls' : List Call) :
    p.strokes (calls ++ calls') = p.strokes calls ++ (calls.foldl call p).strokes calls' := by
  induction calls generalizing p with
  | nil => rfl
  | cons x rest ih =>
    cases x with
    | tick board => exact congrArg (_ :: ·) (ih (p.tick board))
    | read | write | writeOam | takeNmi | clearFrameReady => exact ih _

/-- Dots alone, from one of them on. -/
theorem strokes_replicate (p : Ppu) (board : Board) (m n : Nat) :
    (List.range n).map (fun i => ⟨(fun q => q.tick board)^[m + i] p, board⟩) <:+
      p.strokes (List.replicate (m + n) (.tick board)) := by
  have all (p : Ppu) (k : Nat) : p.strokes (List.replicate k (.tick board)) =
      (List.range k).map fun i => ⟨(fun q => q.tick board)^[i] p, board⟩ := by
    induction k generalizing p with
    | zero => rfl
    | succ k ih =>
      rw [List.replicate_succ, strokes, ih, List.range_succ_eq_map, List.map_cons, List.map_map]
      rfl
  rw [all, List.range_add, List.map_append, List.map_map]
  exact List.suffix_append ..

/-- Any number of dots leave the palette. -/
theorem palette_iterate_tick (p : Ppu) (board : Board) (n : Nat) :
    ((fun q => q.tick board)^[n] p).palette = p.palette := by
  induction n with
  | zero => rfl
  | succ n ih => rw [Function.iterate_succ_apply', palette_tick, ih]

/-- The places of the first frame. -/
theorem place_iterate_tick {p : Ppu} (h : p.raster = {}) (board : Board) {n : Nat}
    (hn : n < linesPerFrame * dotsPerLine) :
    Stroke.place ⟨(fun q => q.tick board)^[n] p, board⟩ = (n / dotsPerLine, n % dotsPerLine) := by
  have hr : ((fun q => q.tick board)^[n] p).raster = ⟨n / dotsPerLine, n % dotsPerLine, false⟩ := by
    rw [← raster_standing, standing_iterate_tick, Standing.raster_iterate_tick, raster_standing, h,
      Raster.iterate_advance _ hn]
  rw [Stroke.place, hr]

/-- A backdrop is chosen and nothing is rendered: so row 120 has its colour. -/
theorem rows_on_screen_backdrop :
    let choose : List Call := [.write .blank 6 0x3F, .write .blank 6 0x00, .write .blank 7 0x21]
    let calls := choose ++ List.replicate (341 * 120 + 1 + 256) (.tick .blank)
    ∃ d ∈ strokes {} calls, d.place = (120, 256) ∧
      ∀ x (hx : x < 256), d.after.frame[120][x] = 0x3CBCFC := by
  intro choose calls
  let p : Ppu := choose.foldl call {}
  -- the three writes choose a colour, and leave everything else as it was
  have hst : p.standing = { start := 0x3F00 } := by
    have h : p.standing = ((({} : Ppu).standing.write 6 0x3F).write 6 0x00).write 7 0x21 := by
      rw [← standing_write _ .blank, ← standing_write _ .blank, ← standing_write _ .blank]
      rfl
    rw [h]
    rfl
  have hce : p.palette.cells[0] = 0x21 := by decide +kernel
  let stroke (i : Nat) : Stroke := ⟨(fun q => q.tick .blank)^[341 * 120 + 1 + i] p, .blank⟩
  have all : (List.range 255).map stroke ++ [stroke 255] = (List.range 256).map stroke := by
    rw [show List.range 256 = List.range 255 ++ [255] from List.range_succ, List.map_append,
      List.map_singleton]
  -- the last 256 dots of the run are those of a line, by their places
  have hs : (List.range 255).map stroke ++ [stroke 255] <:+: strokes {} calls := by
    rw [all, strokes_append]
    exact (strokes_replicate p .blank (341 * 120 + 1) 256).isInfix.trans
      (List.suffix_append ..).isInfix
  have hp (x : Nat) (hx : x < 256) : (stroke x).place = (120, x + 1) := by
    refine (place_iterate_tick (congrArg Standing.raster hst) .blank ?_).trans (Prod.ext ?_ ?_)
    · simp only [linesPerFrame, dotsPerLine]
      omega
    · simp only [dotsPerLine]
      omega
    · simp only [dotsPerLine]
      omega
  have hm (i : Nat) : (stroke i).ppu.mask = {} := by
    rw [← mask_standing, standing_iterate_tick, Standing.mask_iterate_tick, hst]
  have hc : (stroke 255).ppu.palette.cells[0] = 0x21 := by
    rw [palette_iterate_tick, hce]
  obtain ⟨-, -, -, dark⟩ := rows_on_screen calls
  refine ⟨stroke 255, hs.subset (List.mem_append_right _ (List.mem_singleton_self _)),
    hp 255 (by decide), fun x hx => ?_⟩
  have h := dark _ _ 120 (by decide) hs
    (by
      rw [all, List.map_map]
      exact List.map_congr_left fun x hx => hp x (List.mem_range.1 hx))
    (fun k hk => by
      rw [all] at hk
      obtain ⟨i, -, rfl⟩ := List.mem_map.1 hk
      rw [hm]
      rfl) x hx
  rw [hm, hc] at h
  exact (Option.some.inj h).symm

end Ppu
end Famicom
