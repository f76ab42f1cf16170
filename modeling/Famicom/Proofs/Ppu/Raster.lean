/-
# How the raster goes on

A dot is followed by the next in its line (`Raster.advance_of_lt`), and the last dot, or the last
but one of a frame that is cut short, by the start of the next line (`Raster.advance_cases`).  The
first frame is never cut short, so in it the raster is the number of dots written to base 341
(`Raster.iterate_advance`).

In its frame a dot has a position, the number of dots before it.  The raster goes from one position
to the next, or its frame is over: then the dots that it has had, and the one that was left out if
one was, are those of a whole frame (`Raster.InFrame.advance_cases`).
-/

import Mathlib.Logic.Function.Iterate
import Famicom.Ppu.Raster

namespace Famicom
namespace Ppu

/-- The dots in a whole frame. -/
def dotsPerFrame : Nat := linesPerFrame * dotsPerLine

namespace Raster

theorem skipsDot_iff {r : Raster} {rendering : Bool} :
    r.skipsDot rendering = true ↔
      r.oddFrame = true ∧ rendering = true ∧ r.line = preRenderLine ∧ r.dot = 339 := by
  rw [skipsDot, Bool.and_eq_true, Bool.and_eq_true, Bool.and_eq_true, beq_iff_eq, beq_iff_eq,
    and_assoc, and_assoc]

/-- A dot that is neither the last of its line nor followed by one to skip. -/
theorem advance_of_not_skipsDot {r : Raster} {rendering : Bool} (h : r.dot + 1 < dotsPerLine)
    (hs : r.skipsDot rendering = false) : r.advance rendering = { r with dot := r.dot + 1 } := by
  rw [advance, hs, Bool.or_false]
  refine if_neg ?_
  rw [decide_eq_true_eq]
  omega

theorem advance_of_lt {r : Raster} {rendering : Bool} (h : r.dot + 1 < dotsPerLine)
    (hs : ¬(r.line = preRenderLine ∧ r.dot = 339)) :
    r.advance rendering = { r with dot := r.dot + 1 } := by
  refine advance_of_not_skipsDot h ?_
  rw [Bool.eq_false_iff]
  intro hc
  exact hs (skipsDot_iff.1 hc).2.2

/-- The last dot of a line is followed by the next line. -/
theorem advance_last {r : Raster} (h : dotsPerLine ≤ r.dot + 1) (rendering : Bool) :
    r.advance rendering = r.nextLine := by
  rw [advance, decide_eq_true h, Bool.true_or, if_pos rfl]

theorem nextLine_of_lt {r : Raster} (h : r.line + 1 < linesPerFrame) :
    r.nextLine = { r with line := r.line + 1, dot := 0 } :=
  if_neg (Nat.not_le.2 h)

/-- The raster goes on in its line until the last dot, or the last but one. -/
theorem advance_cases (r : Raster) (rendering : Bool) :
    r.dot + 1 < dotsPerLine ∧ r.advance rendering = { r with dot := r.dot + 1 } ∨
      339 ≤ r.dot ∧ r.advance rendering = r.nextLine := by
  unfold advance
  split
  · rename_i h
    refine .inr ⟨?_, rfl⟩
    rw [Bool.or_eq_true, decide_eq_true_eq, skipsDot_iff] at h
    rcases h with h | h
    · simp only [dotsPerLine] at h
      omega
    · omega
  · rename_i h
    rw [Bool.or_eq_true, decide_eq_true_eq, not_or] at h
    exact .inl ⟨Nat.lt_of_not_le h.1, rfl⟩

/-- The row of the picture that follows a line: after the last line comes row 0. -/
def nextRow (r : Raster) : Nat := (r.line + 1) % linesPerFrame

theorem line_nextLine {r : Raster} (h : r.line < linesPerFrame) :
    r.nextLine.line = r.nextRow := by
  unfold nextLine nextRow
  split
  · have he : r.line + 1 = linesPerFrame := by omega
    rw [he, Nat.mod_self]
  · rw [Nat.mod_eq_of_lt (by omega)]

/-- **The first frame**: no dot of it is left out. -/
theorem iterate_advance (rendering : Bool) {n : Nat} (hn : n < linesPerFrame * dotsPerLine) :
    (fun r : Raster => r.advance rendering)^[n] {} =
      ⟨n / dotsPerLine, n % dotsPerLine, false⟩ := by
  induction n with
  | zero => rfl
  | succ n ih =>
    have hr := ih (Nat.lt_of_succ_lt hn)
    rw [Function.iterate_succ_apply', hr]
    -- the dot is the last of its line or it is not; no dot is skipped in an even frame
    by_cases he : dotsPerLine ≤ n % dotsPerLine + 1
    · have hl : n / dotsPerLine + 1 < linesPerFrame := by
        simp only [linesPerFrame, dotsPerLine] at *
        omega
      have hd : (n + 1) / dotsPerLine = n / dotsPerLine + 1 := by
        simp only [dotsPerLine] at *
        omega
      have hm : (n + 1) % dotsPerLine = 0 := by
        simp only [dotsPerLine] at *
        omega
      rw [advance_last he, nextLine_of_lt hl, hd, hm]
    · have hd : (n + 1) / dotsPerLine = n / dotsPerLine := by
        simp only [dotsPerLine] at *
        omega
      have hm : (n + 1) % dotsPerLine = n % dotsPerLine + 1 := by
        simp only [dotsPerLine] at *
        omega
      rw [advance_of_not_skipsDot (Nat.lt_of_not_le he) rfl, hd, hm]

/-- The number of dots that come before this one in its frame. -/
def position (r : Raster) : Nat := dotsPerLine * r.line + r.dot

/-- The raster stands in a frame. -/
structure InFrame (r : Raster) : Prop where
  line_lt : r.line < linesPerFrame
  dot_lt : r.dot < dotsPerLine

namespace InFrame

variable {r : Raster}

theorem advance (h : r.InFrame) (rendering : Bool) : (r.advance rendering).InFrame :=
  ⟨line_advance_lt h.line_lt rendering, dot_advance_lt r rendering⟩

theorem position_lt (h : r.InFrame) : r.position < dotsPerFrame := by
  have hl := h.line_lt
  have hd := h.dot_lt
  simp only [position, dotsPerFrame, linesPerFrame, dotsPerLine] at *
  omega

/-- **The raster goes a dot on, or its frame is over.** -/
theorem advance_cases (h : r.InFrame) (rendering : Bool) :
    ((r.advance rendering).position = r.position + 1 ∧
        (r.advance rendering).oddFrame = r.oddFrame ∧ r.skipsDot rendering = false) ∨
      (r.advance rendering = { oddFrame := !r.oddFrame } ∧
        r.position + 1 + (r.skipsDot rendering).toNat = dotsPerFrame) := by
  have hl := h.line_lt
  have hd := h.dot_lt
  cases hs : r.skipsDot rendering with
  | true =>
    obtain ⟨_, _, h₁, h₂⟩ := skipsDot_iff.1 hs
    refine .inr ⟨?_, ?_⟩
    · rw [Raster.advance, hs, Bool.or_true, if_pos rfl, nextLine, h₁]
      rfl
    · rw [position, h₁, h₂]
      rfl
  | false =>
    by_cases he : r.dot + 1 < dotsPerLine
    · rw [advance_of_not_skipsDot he hs]
      exact .inl ⟨rfl, rfl, rfl⟩
    · rw [advance_last (Nat.le_of_not_lt he)]
      by_cases hn : r.line + 1 < linesPerFrame
      · rw [nextLine_of_lt hn]
        refine .inl ⟨?_, rfl, rfl⟩
        simp only [position, dotsPerLine] at *
        omega
      · refine .inr ⟨if_pos (Nat.le_of_not_lt hn), ?_⟩
        simp only [position, dotsPerFrame, linesPerFrame, dotsPerLine, Bool.toNat_false] at *
        omega

/-- The vertical blank starts 82182 dots after the frame, and 7160 before the next one. -/
example : ({ line := 241, dot := 1 } : Raster).position = 82182 ∧
    dotsPerFrame - 82182 = 7160 := by decide

end InFrame

end Raster
end Ppu
end Famicom
