/-
# The tiles under way

A walk along a line fetches one tile in eight dots.  After dot `i` of tile `k` of the walk
(`Ppu.Fetch.Underway`) the latches hold what has been fetched of it, the lower halves of the shift
registers hold tile `k - 1`, and the upper halves tile `k - 2`, both moved up by `i` places.  So
the pixel that is shown sixteen dots after a tile was begun is its first, and which tile it comes
from needs no look at the fetching at all: it is the row that the board holds for a place
(`Row.ofPlace`), so many steps to the right of where the walk started.
-/

import Famicom.Proofs.Board.Shown
import Famicom.Proofs.Ppu.Fetch
import Famicom.Proofs.Ppu.Places
import Famicom.Proofs.Ppu.ShiftRegister

namespace Famicom

namespace Ppu

/-- **The row of the tile at a place**, read from the board: the number of the tile in the
nametable, the pattern under that number, and the quarter of the attribute byte. -/
def Row.ofPlace (board : Board) (table v : Nat) : Row :=
  let address := table + (board.readPpu (Place.tileAddress v)).toNat * 16 + Place.fineRow v
  { low := board.readPpu address
    high := board.readPpu (address + 8)
    palette := Place.palette v (board.readPpu (Place.attributeAddress v)) }

namespace Background

variable {b : Background} {board board' : Board} {table v phase i : Nat} {u w : Planes}

theorem fetch_showsAs (h : board'.ShowsAs board) (b : Background) (table v phase : Nat) :
    b.fetch board' table v phase = b.fetch board table v phase := by
  unfold fetch
  split <;> simp only [h _]

theorem tile_fetch (h : phase ≠ 0) : (b.fetch board table v phase).tile = b.tile := by
  unfold fetch
  split
  · exact absurd rfl h
  all_goals rfl

theorem palette_fetch :
    (b.fetch board table v phase).palette =
      if phase = 2 then Place.palette v (board.readPpu (Place.attributeAddress v))
      else b.palette := by
  unfold fetch
  split
  case h_5 =>
    rename_i h _ _
    rw [if_neg h]
  all_goals rfl

theorem low_fetch :
    (b.fetch board table v phase).low =
      if phase = 4 then board.readPpu (b.patternAddress table v) else b.low := by
  unfold fetch
  split
  case h_5 =>
    rename_i h _
    rw [if_neg h]
  all_goals rfl

theorem high_fetch :
    (b.fetch board table v phase).high =
      if phase = 6 then board.readPpu (b.patternAddress table v + 8) else b.high := by
  unfold fetch
  split
  case h_5 =>
    rename_i h
    rw [if_neg h]
  all_goals rfl

/-- Only the first fetch of a tile loads the registers. -/
theorem Holds.fetch (hb : b.Holds u w i) (h : phase ≠ 0) :
    (b.fetch board table v phase).Holds u w i := by
  unfold Background.fetch
  split
  · exact absurd rfl h
  all_goals exact ⟨hb.low, hb.high, hb.paletteLow, hb.paletteHigh⟩

end Background
/-- The row of tile `k` of a walk. -/
def Row.ofWalk (board : Board) (table start k : Nat) : Row :=
  ofPlace board table (Place.stepRight^[k] start)

namespace Fetch

/-- **A walk along a line** after dot `i` of its tile `k`. -/
structure Underway (board : Board) (table start : Nat) (f : Fetch) (k i : Nat) : Prop where
  place : f.v = Place.stepRight^[if i = 7 then k + 1 else k] start
  tile : f.background.tile = board.readPpu (Place.tileAddress (Place.stepRight^[k] start))
  palette : 2 ≤ i → f.background.palette = (Row.ofWalk board table start k).palette
  low : 4 ≤ i → f.background.low = (Row.ofWalk board table start k).low
  high : 6 ≤ i → f.background.high = (Row.ofWalk board table start k).high
  lower : 1 ≤ k → ∃ u, f.background.Holds u (Row.ofWalk board table start (k - 1)).planes i
  upper : 2 ≤ k → f.background.Holds (Row.ofWalk board table start (k - 2)).planes
    (Row.ofWalk board table start (k - 1)).planes i

variable {board : Board} {start k i : Nat} {f : Fetch} {s : Standing}

/-- With the background enabled every dot shifts and fetches. -/
theorem step_eq (hm : s.mask.background = true) (f : Fetch) (board : Board) :
    f.step s board =
      { v := if (s.raster.dot - 1) % 8 = 7 then Place.stepRight f.v else f.v
        background := f.background.shift.fetch board s.control.backgroundTable f.v
          ((s.raster.dot - 1) % 8) } := by
  unfold step
  dsimp only
  rw [if_pos hm]
  split
  · rename_i h
    rw [h]
    rfl
  · rfl

/-- A walk begins with the number of its first tile. -/
theorem Underway.first (hm : s.mask.background = true) (hp : (s.raster.dot - 1) % 8 = 0)
    (hv : f.v = start) : (f.step s board).Underway board s.control.backgroundTable start 0 0 := by
  rw [step_eq hm, hp]
  refine ⟨hv, ?_, ?_, ?_, ?_, ?_, ?_⟩
  · rw [hv]
    rfl
  all_goals
    intro h
    exact absurd h (by omega)

/-- **Each dot of a tile fetches what falls on it** and moves the registers up. -/
theorem Underway.step (h : f.Underway board s.control.backgroundTable start k i) (hi : i < 7)
    (hm : s.mask.background = true) (hp : (s.raster.dot - 1) % 8 = i + 1) :
    (f.step s board).Underway board s.control.backgroundTable start k (i + 1) := by
  have hz : i + 1 ≠ 0 := by omega
  have hv : f.v = Place.stepRight^[k] start := by
    rw [h.place, if_neg (by omega)]
  have ha : f.background.shift.patternAddress s.control.backgroundTable f.v =
      s.control.backgroundTable +
        (board.readPpu (Place.tileAddress (Place.stepRight^[k] start))).toNat * 16 +
        Place.fineRow (Place.stepRight^[k] start) := by
    rw [hv, ← h.tile]
    rfl
  rw [step_eq hm, hp]
  -- each latch is filled in its own phase, and kept in the others
  constructor
  case place =>
    dsimp only
    by_cases h₇ : i + 1 = 7
    · rw [if_pos h₇, if_pos h₇, hv, Function.iterate_succ_apply']
    · rw [if_neg h₇, if_neg h₇, hv]
  case tile =>
    dsimp only
    rw [Background.tile_fetch hz]
    exact h.tile
  case palette =>
    intro h₂
    dsimp only
    rw [Background.palette_fetch]
    by_cases he : i + 1 = 2
    · rw [if_pos he, hv]
      rfl
    · rw [if_neg he]
      exact h.palette (by omega)
  case low =>
    intro h₄
    dsimp only
    rw [Background.low_fetch]
    by_cases he : i + 1 = 4
    · rw [if_pos he, ha]
      rfl
    · rw [if_neg he]
      exact h.low (by omega)
  case high =>
    intro h₆
    dsimp only
    rw [Background.high_fetch]
    by_cases he : i + 1 = 6
    · rw [if_pos he, ha]
      rfl
    · rw [if_neg he]
      exact h.high (by omega)
  case lower =>
    intro h₁
    obtain ⟨u, hu⟩ := h.lower h₁
    exact ⟨u, hu.shift.fetch hz⟩
  case upper =>
    intro h₂
    exact (h.upper h₂).shift.fetch hz

/-- **When a tile has been fetched it enters the registers**, and the next is begun. -/
theorem Underway.next (h : f.Underway board s.control.backgroundTable start k 7)
    (hm : s.mask.background = true) (hp : (s.raster.dot - 1) % 8 = 0) :
    (f.step s board).Underway board s.control.backgroundTable start (k + 1) 0 := by
  have hv : f.v = Place.stepRight^[k + 1] start := h.place
  have hr : f.background.shift.row = Row.ofWalk board s.control.backgroundTable start k := by
    show (⟨f.background.low, f.background.high, f.background.palette⟩ : Row) = _
    rw [h.palette (by omega), h.low (by omega), h.high (by omega)]
  rw [step_eq hm, hp]
  -- the shift registers take what the latches hold, and the next tile begins
  constructor
  case place => exact hv
  case tile =>
    rw [← hv]
    rfl
  case palette | low | high =>
    intro hi
    exact absurd hi (by omega)
  case lower =>
    intro _
    obtain ⟨u, hu⟩ := f.background.shift.holds_load
    rw [hr] at hu
    exact ⟨u, hu.low, hu.high, hu.paletteLow, hu.paletteHigh⟩
  case upper =>
    intro h₂
    obtain ⟨u, hu⟩ := h.lower (by omega)
    have hl := hu.shift.load
    rw [hr] at hl
    exact ⟨hl.low, hl.high, hl.paletteLow, hl.paletteHigh⟩

/-- **What is shown sixteen dots after a tile was begun** is its first pixel, and so on along the
walk. -/
theorem Underway.pixel {table x n : Nat}
    (h : f.Underway board table start (x / 8 + 2) (x % 8)) (hn : n < 8) :
    f.background.pixel n =
      (Row.ofWalk board table start ((n + x) / 8)).pixel ((n + x) % 8) := by
  rw [(h.upper (by omega)).pixel hn (by omega)]
  by_cases hx : n + x % 8 < 8
  · have hd : (n + x) / 8 = x / 8 + 2 - 2 := by omega
    have hr : (n + x) % 8 = n + x % 8 := by omega
    rw [if_pos hx, hd, hr]
  · have hd : (n + x) / 8 = x / 8 + 2 - 1 := by omega
    have hr : (n + x) % 8 = n + x % 8 - 8 := by omega
    rw [if_neg hx, hd, hr]

end Fetch
end Ppu
end Famicom
