/-
# The course of the fetching

With the background enabled and nothing in its way the fetching runs the same course line after
line (`Ppu.Fetch.OnCourse`), `t` being where the picture starts:

| dots before | visible line `y` | last line |
| --- | --- | --- |
| 0–256 | a walk from `y` rows below `t`, two tiles ahead | |
| 257 | a row further down, in some column | |
| 258–280 | at the start of the next line | in the column of `t` |
| 281–321 | at the start of the next line | at `t` |
| 322–340 | a walk from there | a walk from `t` |

The walk that a line begins at dot 321 is the one that the next line goes on with, so what is known
at the end of the last line is known of every visible line after it.
-/

import Famicom.Proofs.Ppu.Pipeline
import Famicom.Proofs.Ppu.Raster

namespace Famicom
namespace Ppu

/-- Whether the background is fetched in a line. -/
def Raster.Fetches (r : Raster) : Prop := r.line < visibleLines ∨ r.line = preRenderLine

namespace Fetch

open Place (stepRight stepDown withColumnOf withRowOf)

/-! ### The dots of a line, one kind after the other -/

variable {board : Board} {table start m : Nat} {f : Fetch} {s : Standing}

/-- A dot that is not a fetch, nor the end of a walk, nor one of those that set the row. -/
theorem dot_idle
    (h : s.raster.dot < 2 ∨ 257 < s.raster.dot ∧ s.raster.dot < 321 ∨ 337 < s.raster.dot)
    (hr : ¬(s.raster.line = preRenderLine ∧ 280 ≤ s.raster.dot ∧ s.raster.dot ≤ 304))
    (f : Fetch) (board : Board) : f.dot s board = f := by
  have hf : ¬fetchesIn s.raster.dot = true := by
    rw [fetchesIn_iff]
    omega
  unfold dot
  dsimp only
  rw [if_neg hf, if_neg (by omega), if_neg (by omega), if_neg hr]

/-- A dot that fetches and does nothing else. -/
theorem dot_fetch
    (h : 2 ≤ s.raster.dot ∧ s.raster.dot ≤ 255 ∨ 321 ≤ s.raster.dot ∧ s.raster.dot ≤ 337)
    (f : Fetch) (board : Board) : f.dot s board = f.step s board := by
  have hf : fetchesIn s.raster.dot = true := by
    rw [fetchesIn_iff]
    omega
  unfold dot
  dsimp only
  rw [if_pos hf, if_neg (by omega), if_neg (by omega), if_neg (by omega)]

/-- The last dot of a walk also goes down. -/
theorem dot_down (h : s.raster.dot = 256) (f : Fetch) (board : Board) :
    f.dot s board = { f.step s board with v := stepDown (f.step s board).v } := by
  unfold dot
  dsimp only
  rw [h, if_pos rfl, if_pos (by decide)]

/-- The dot after it goes back to the first column. -/
theorem v_dot_column (h : s.raster.dot = 257) (f : Fetch) (board : Board) :
    (f.dot s board).v = withColumnOf f.v s.start := by
  have hv : (f.step s board).v = f.v := by
    unfold step
    rw [h]
    rfl
  unfold dot
  dsimp only
  rw [h, if_neg (by decide), if_pos rfl, if_pos (by decide), hv]

/-- In the last line some dots set the row. -/
theorem v_dot_row (hl : s.raster.line = preRenderLine) (h₁ : 280 ≤ s.raster.dot)
    (h₂ : s.raster.dot ≤ 304) (f : Fetch) (board : Board) :
    (f.dot s board).v = withRowOf f.v s.start := by
  have hf : ¬fetchesIn s.raster.dot = true := by
    rw [fetchesIn_iff]
    omega
  unfold dot
  dsimp only
  rw [if_neg hf, if_neg (by omega), if_neg (by omega), if_pos ⟨hl, h₁, h₂⟩]

/-- A walk goes on from dot to dot and from tile to tile. -/
theorem Underway.advance (h : f.Underway board s.control.backgroundTable start (m / 8) (m % 8))
    (hm : s.mask.background = true) (hp : (s.raster.dot - 1) % 8 = (m + 1) % 8) :
    (f.step s board).Underway board s.control.backgroundTable start ((m + 1) / 8)
      ((m + 1) % 8) := by
  by_cases h₇ : m % 8 = 7
  · have hd : (m + 1) / 8 = m / 8 + 1 := by omega
    have hr : (m + 1) % 8 = 0 := by omega
    rw [h₇] at h
    rw [hd, hr]
    exact h.next hm (hp.trans hr)
  · have hd : (m + 1) / 8 = m / 8 := by omega
    have hr : (m + 1) % 8 = m % 8 + 1 := by omega
    rw [hd, hr]
    exact h.step (by omega) hm (hp.trans hr)

/-! ### On course along a line

Where the fetching is at a dot follows from the line and the dot alone: which columns have been
loaded, which are in the shift registers, and by how far they have been shifted. -/

/-- **The course of the fetching** in a picture that starts at `t`. -/
structure OnCourse (board : Board) (table t : Nat) (r : Raster) (f : Fetch) : Prop where
  /-- The walk that is shown. -/
  shown : r.line < visibleLines → r.dot ≤ 256 →
    f.Underway board table (stepDown^[r.line] t) ((max r.dot 2 + 14) / 8)
      ((max r.dot 2 + 14) % 8)
  /-- The walk has ended, and has gone down. -/
  down : r.line < visibleLines → r.dot = 257 → withColumnOf f.v t = stepDown^[r.nextRow] t
  /-- In the last line, the column has been set and the row has not. -/
  column : r.line = preRenderLine → 258 ≤ r.dot → r.dot ≤ 280 → withRowOf f.v t = t
  /-- The place is the start of the next line. -/
  ready : r.line < visibleLines ∧ 258 ≤ r.dot ∨ r.line = preRenderLine ∧ 281 ≤ r.dot →
    r.dot ≤ 321 → f.v = stepDown^[r.nextRow] t
  /-- The walk that the next line goes on with. -/
  ahead : r.Fetches → 322 ≤ r.dot →
    f.Underway board table (stepDown^[r.nextRow] t) ((min r.dot 338 - 322) / 8)
      ((min r.dot 338 - 322) % 8)

namespace OnCourse

variable {t : Nat} (h : f.OnCourse board s.control.backgroundTable s.start s.raster)
include h

/-- The walk that is shown goes on by a dot. -/
theorem shown_dot (hm : s.mask.background = true) (hl : s.raster.line < visibleLines)
    (hd : s.raster.dot ≤ 255) :
    (f.dot s board).Underway board s.control.backgroundTable (stepDown^[s.raster.line] s.start)
      ((max (s.raster.dot + 1) 2 + 14) / 8) ((max (s.raster.dot + 1) 2 + 14) % 8) := by
  have hu := h.shown hl (by omega)
  by_cases h₂ : s.raster.dot < 2
  · have he : max (s.raster.dot + 1) 2 = max s.raster.dot 2 := by omega
    rw [dot_idle (.inl h₂) (by omega), he]
    exact hu
  · have he : max (s.raster.dot + 1) 2 + 14 = max s.raster.dot 2 + 14 + 1 := by omega
    rw [dot_fetch (.inl (by omega)), he]
    exact hu.advance hm (by omega)

/-- **What a dot of a visible line shows** is a pixel of the walk. -/
theorem pixel_dot (hm : s.mask.background = true) (hl : s.raster.line < visibleLines)
    (h₁ : 1 ≤ s.raster.dot) (h₂ : s.raster.dot ≤ 256) {n : Nat} (hn : n < 8) :
    (f.dot s board).background.pixel n =
      (Row.ofWalk board s.control.backgroundTable (stepDown^[s.raster.line] s.start)
        ((n + (s.raster.dot - 1)) / 8)).pixel ((n + (s.raster.dot - 1)) % 8) := by
  rcases Nat.lt_or_eq_of_le h₂ with h₂ | h₂
  · have hu := h.shown_dot hm hl (Nat.le_of_lt_succ h₂)
    have hd : (max (s.raster.dot + 1) 2 + 14) / 8 = (s.raster.dot - 1) / 8 + 2 := by omega
    have hr : (max (s.raster.dot + 1) 2 + 14) % 8 = (s.raster.dot - 1) % 8 := by omega
    rw [hd, hr] at hu
    exact hu.pixel hn
  · have hu := (h.shown hl (by omega)).advance hm (by omega)
    have hd : (max s.raster.dot 2 + 14 + 1) / 8 = (s.raster.dot - 1) / 8 + 2 := by omega
    have hr : (max s.raster.dot 2 + 14 + 1) % 8 = (s.raster.dot - 1) % 8 := by omega
    rw [hd, hr] at hu
    rw [dot_down h₂]
    exact hu.pixel hn

/-- At its end the walk goes down. -/
theorem down_dot (hm : s.mask.background = true) (ht : s.start < 32768)
    (hl : s.raster.line < visibleLines) (hd : s.raster.dot = 256) :
    withColumnOf (f.dot s board).v s.start = stepDown^[s.raster.nextRow] s.start := by
  have hu := (h.shown hl (by omega)).advance hm (by omega)
  have hn : s.raster.nextRow = s.raster.line + 1 := by
    unfold visibleLines at hl
    exact Nat.mod_eq_of_lt (by simp only [linesPerFrame]; omega)
  rw [dot_down hd]
  dsimp only
  rw [hu.place, Place.withColumnOf_walk ht, hn]

/-- The place is set to the start of the next line, and stays there until the next walk. -/
theorem ready_dot (ht : s.start < 32768)
    (hl : s.raster.line < visibleLines ∧ 257 ≤ s.raster.dot ∨
      s.raster.line = preRenderLine ∧ 280 ≤ s.raster.dot) (hd : s.raster.dot ≤ 320) :
    (f.dot s board).v = stepDown^[s.raster.nextRow] s.start := by
  -- on a visible line the column is set at dot 257; before the first the row is set again up to dot
  -- 304
  rcases hl with ⟨hl, h₁⟩ | ⟨hl, h₁⟩
  · have hn : ¬s.raster.line = preRenderLine := by
      unfold visibleLines at hl
      simp only [preRenderLine]
      omega
    rcases Nat.eq_or_lt_of_le h₁ with h₁ | h₁
    · rw [v_dot_column h₁.symm]
      exact h.down hl h₁.symm
    · rw [dot_idle (by omega) fun hc => hn hc.1]
      exact h.ready (.inl ⟨hl, h₁⟩) (by omega)
  · have hz : stepDown^[s.raster.nextRow] s.start = s.start := by
      rw [Raster.nextRow, hl]
      rfl
    rcases Nat.eq_or_lt_of_le h₁ with h₁ | h₁
    · rw [v_dot_row hl (by omega) (by omega), hz]
      exact h.column hl (by omega) (by omega)
    · have hv := h.ready (.inr ⟨hl, h₁⟩) (by omega)
      by_cases h₂ : s.raster.dot ≤ 304
      · rw [v_dot_row hl (by omega) h₂, hv, hz, Place.withRowOf_self ht]
      · rw [dot_idle (by omega) (by omega)]
        exact hv

/-- In the last line the column is set long before the row. -/
theorem column_dot (ht : s.start < 32768) (hl : s.raster.line = preRenderLine)
    (h₁ : 257 ≤ s.raster.dot) (h₂ : s.raster.dot ≤ 279) :
    withRowOf (f.dot s board).v s.start = s.start := by
  rcases Nat.eq_or_lt_of_le h₁ with h₁ | h₁
  · rw [v_dot_column h₁.symm, Place.withRowOf_withColumnOf ht]
  · rw [dot_idle (by omega) (by omega)]
    exact h.column hl h₁ (by omega)

/-- The next walk begins at dot 321 and goes on for two tiles. -/
theorem ahead_dot (hm : s.mask.background = true) (hl : s.raster.Fetches)
    (hd : 321 ≤ s.raster.dot) :
    (f.dot s board).Underway board s.control.backgroundTable
      (stepDown^[s.raster.nextRow] s.start) ((min (s.raster.dot + 1) 338 - 322) / 8)
      ((min (s.raster.dot + 1) 338 - 322) % 8) := by
  rcases Nat.eq_or_lt_of_le hd with hd | hd
  · have hv : f.v = stepDown^[s.raster.nextRow] s.start :=
      h.ready (hl.imp (fun hl => ⟨hl, by omega⟩) fun hl => ⟨hl, by omega⟩) (by omega)
    rw [dot_fetch (by omega), ← hd]
    exact Underway.first hm (by omega) hv
  · have hu := h.ahead hl hd
    by_cases h₂ : s.raster.dot ≤ 337
    · have he : min (s.raster.dot + 1) 338 - 322 = min s.raster.dot 338 - 322 + 1 := by omega
      rw [dot_fetch (by omega), he]
      exact hu.advance hm (by omega)
    · have he : min (s.raster.dot + 1) 338 = min s.raster.dot 338 := by omega
      rw [dot_idle (by omega) (by omega), he]
      exact hu

/-- Within a line the course is kept. -/
theorem dot (hm : s.mask.background = true) (ht : s.start < 32768) (hf : s.raster.Fetches) :
    (f.dot s board).OnCourse board s.control.backgroundTable s.start
      { s.raster with dot := s.raster.dot + 1 } where
  shown hl hd := h.shown_dot hm hl (Nat.le_of_lt_succ hd)
  down hl hd := h.down_dot hm ht hl (Nat.succ.inj hd)
  column hl h₁ h₂ := h.column_dot ht hl (Nat.le_of_lt_succ h₁) (Nat.le_of_lt_succ h₂)
  ready hl hd := by
    dsimp only at hl hd
    exact h.ready_dot ht (by omega) (by omega)
  ahead _ hd := h.ahead_dot hm hf (Nat.le_of_lt_succ hd)

/-- At the end of a line the walk that it has begun becomes the one that is shown. -/
theorem nextLine (hl : s.raster.line < linesPerFrame) (hd : 339 ≤ s.raster.dot) :
    f.OnCourse board s.control.backgroundTable s.start s.raster.nextLine := by
  have h₀ : s.raster.nextLine.dot = 0 := Raster.dot_nextLine s.raster
  have h₁ : s.raster.nextLine.line = s.raster.nextRow := Raster.line_nextLine hl
  constructor
  -- the first two tiles of a line have been fetched at the end of the line before it
  case shown =>
    intro hv _
    have hf : s.raster.Fetches := by
      rw [h₁, Raster.nextRow] at hv
      unfold linesPerFrame at hv hl
      unfold Raster.Fetches visibleLines preRenderLine
      unfold visibleLines at hv
      omega
    have hm : min s.raster.dot 338 = 338 := by omega
    have ha := h.ahead hf (by omega)
    rw [hm] at ha
    rw [h₀, h₁]
    exact ha
  case down | column | ahead =>
    rw [h₀]
    omega
  case ready =>
    rw [h₀]
    omega

end OnCourse

/-- In a line in which nothing is fetched there is no course to keep. -/
theorem onCourse_of_not {r : Raster} (h : ¬r.Fetches) {t : Nat} (f : Fetch) :
    f.OnCourse board table t r where
  shown hl _ := absurd (.inl hl) h
  down hl _ := absurd (.inl hl) h
  column hl _ _ := absurd (.inr hl) h
  ready hl _ := absurd (hl.imp And.left And.left) h
  ahead hf _ := absurd hf h

/-- Nor is there in the last line before the column is set. -/
theorem onCourse_of_early {r : Raster} (hl : r.line = preRenderLine) (hd : r.dot ≤ 257) {t : Nat}
    (f : Fetch) : f.OnCourse board table t r := by
  have hv : ¬r.line < visibleLines := by
    rw [hl]
    decide
  constructor
  case shown | down =>
    intro h
    exact absurd h hv
  case column | ahead =>
    omega
  case ready =>
    omega

/-- **The fetching keeps its course.** -/
theorem OnCourse.tick (h : f.OnCourse board s.control.backgroundTable s.start s.raster)
    (hm : s.mask.background = true) (ht : s.start < 32768) (hl : s.raster.line < linesPerFrame) :
    (if s.raster.line < visibleLines ∨ s.raster.line = preRenderLine then f.dot s board
      else f).OnCourse board s.control.backgroundTable s.start s.tick.raster := by
  show OnCourse _ _ _ (s.raster.advance s.mask.rendering) _
  rcases s.raster.advance_cases s.mask.rendering with ⟨_, hr⟩ | ⟨hd, hr⟩
  · rw [hr]
    split
    · rename_i hf
      exact h.dot hm ht hf
    · rename_i hf
      refine onCourse_of_not ?_ f
      exact hf
  · rw [hr]
    have hi : f.dot s board = f := dot_idle (by omega) (by omega) f board
    rw [hi, ite_self]
    exact h.nextLine hl hd

end Fetch
end Ppu
end Famicom
