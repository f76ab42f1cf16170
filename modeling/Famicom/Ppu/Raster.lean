/-
# The raster

The picture is drawn dot by dot, 341 dots to a line and 262 lines to a frame:

| lines | |
| --- | --- |
| 0–239 | visible |
| 240 | idle |
| 241–260 | vertical blank, from dot 1 of line 241 |
| 261 | fetches for line 0 |

Every second frame is a dot shorter: its last line ends after dot 339 if something is being
rendered then.
-/

namespace Famicom
namespace Ppu

/-- The dots in a line. -/
def dotsPerLine : Nat := 341

/-- The lines in a frame. -/
def linesPerFrame : Nat := 262

/-- The lines that are seen. -/
def visibleLines : Nat := 240

/-- The line in which the vertical blank starts. -/
def vblankLine : Nat := 241

/-- The last line of a frame. -/
def preRenderLine : Nat := 261

/-- The dot that is being drawn, and whether the number of frames before is odd. -/
structure Raster where
  line : Nat := 0
  dot : Nat := 0
  oddFrame : Bool := false
deriving DecidableEq, Repr

namespace Raster

/-- Whether the last dot of the frame is left out. -/
def skipsDot (r : Raster) (rendering : Bool) : Bool :=
  r.oddFrame && rendering && r.line == preRenderLine && r.dot == 339

/-- The start of the next line. -/
def nextLine (r : Raster) : Raster :=
  if linesPerFrame ≤ r.line + 1 then { line := 0, dot := 0, oddFrame := !r.oddFrame }
  else { r with line := r.line + 1, dot := 0 }

/-- The next dot. -/
@[inline] def advance (r : Raster) (rendering : Bool) : Raster :=
  if dotsPerLine ≤ r.dot + 1 || r.skipsDot rendering then r.nextLine
  else { r with dot := r.dot + 1 }

/-- The line after the last one is the first, -/
theorem line_nextLine_lt (r : Raster) : r.nextLine.line < linesPerFrame := by
  unfold nextLine
  split
  · exact Nat.zero_lt_succ _
  · rename_i h
    exact Nat.lt_of_not_le h

/-- and a line begins with dot 0. -/
theorem dot_nextLine (r : Raster) : r.nextLine.dot = 0 := by
  unfold nextLine
  split <;> rfl

/-- The raster stays within the lines of a frame. -/
theorem line_advance_lt {r : Raster} (h : r.line < linesPerFrame) (rendering : Bool) :
    (r.advance rendering).line < linesPerFrame := by
  unfold advance
  split
  · exact line_nextLine_lt r
  · exact h

/-- The raster stays within the dots of a line. -/
theorem dot_advance_lt (r : Raster) (rendering : Bool) :
    (r.advance rendering).dot < dotsPerLine := by
  unfold advance
  split
  · rw [dot_nextLine]
    exact Nat.zero_lt_succ _
  · rename_i h
    rw [Bool.or_eq_true, decide_eq_true_eq, not_or] at h
    exact Nat.lt_of_not_le h.1

/-- An odd frame is a dot shorter while something is rendered, and only then. -/
example : ({ line := 261, dot := 339, oddFrame := true } : Raster).advance true = {} ∧
    ({ line := 261, dot := 339, oddFrame := true } : Raster).advance false =
      { line := 261, dot := 340, oddFrame := true } := by decide

end Raster
end Ppu
end Famicom
