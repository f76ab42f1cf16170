/-
# How far the vertical blank is

From every dot it is a certain number of dots to the end of the one that starts the vertical blank,
if none is left out (`Ppu.Raster.untilBlank`).  With every dot the number falls by one, and by two
where a frame is cut short, which happens once before a vertical blank at the most: the number is
too small for it afterwards (`Ppu.Raster.InFrame.approaches_advance`).

So of three dots in a row, which is what a machine cycle has, either none starts the vertical blank
or exactly one does (`Ppu.Raster.Approaches.three`).
-/

import Famicom.Proofs.Ppu.Raster

namespace Famicom
namespace Ppu
namespace Raster

/-- The position of the dot that starts the vertical blank. -/
def blankPosition : Nat := dotsPerLine * vblankLine + 1

/-- The dots to be drawn until the vertical blank has started, if none is left out. -/
def untilBlank (r : Raster) : Nat :=
  (dotsPerFrame + blankPosition - r.position) % dotsPerFrame + 1

/-- There is at least one dot to go, that of the blank itself included, -/
theorem untilBlank_pos (r : Raster) : 0 < r.untilBlank := Nat.succ_pos _

/-- and never more than a frame. -/
theorem untilBlank_le (r : Raster) : r.untilBlank ≤ dotsPerFrame :=
  Nat.succ_le_of_lt (Nat.mod_lt _ (by decide))

/-- How the distance falls in a dot. -/
def Approaches (n n' : Nat) : Prop :=
  n = 1 ∧ n' = dotsPerFrame ∨
    1 < n ∧ (n' + 1 = n ∨ n' + 2 = n ∧ n' = blankPosition + 1)

/-- **Three dots**: the vertical blank starts in none of them and comes nearer, or it starts in one
of them. -/
theorem Approaches.three {n₀ n₁ n₂ n₃ : Nat} (h₀ : Approaches n₀ n₁) (h₁ : Approaches n₁ n₂)
    (h₂ : Approaches n₂ n₃) :
    (3 < n₀ ∧ [n₀, n₁, n₂].count 1 = 0 ∧ (n₃ + 3 = n₀ ∨
        n₃ + 4 = n₀ ∧ n₃ ≤ blankPosition + 1 ∧ blankPosition + 1 < n₀)) ∨
      (n₀ ≤ 3 ∧ [n₀, n₁, n₂].count 1 = 1 ∧ n₃ + 3 = dotsPerFrame + n₀) := by
  have hf : dotsPerFrame = 89342 := rfl
  have hb : blankPosition = 82182 := rfl
  simp only [Approaches, hf, hb] at h₀ h₁ h₂ ⊢
  simp only [List.count_cons, List.count_nil, beq_iff_eq]
  split <;> split <;> split <;> omega

namespace InFrame

variable {r : Raster}

/-- One dot is left exactly in front of that dot. -/
theorem untilBlank_eq_one_iff (h : r.InFrame) :
    r.untilBlank = 1 ↔ r.line = vblankLine ∧ r.dot = 1 := by
  have hl := h.line_lt
  have hd := h.dot_lt
  simp only [untilBlank, position, blankPosition, dotsPerFrame, linesPerFrame, dotsPerLine,
    vblankLine] at *
  omega

/-- **How the distance falls**: by one with every dot, by two where one is left out, which happens
only before the first dot of a frame; and after the vertical blank it is that of a whole frame. -/
theorem approaches_advance (h : r.InFrame) (rendering : Bool) :
    Approaches r.untilBlank (r.advance rendering).untilBlank := by
  have hp := h.position_lt
  obtain ⟨ha, _, _⟩ | ⟨ha, he⟩ := h.advance_cases rendering
  · have hp' := (h.advance rendering).position_lt
    simp only [Approaches, untilBlank, blankPosition, dotsPerFrame, linesPerFrame, dotsPerLine,
      vblankLine] at *
    omega
  · have ha' : (r.advance rendering).position = 0 := by rw [ha]; rfl
    have hb := Bool.toNat_le (r.skipsDot rendering)
    simp only [Approaches, untilBlank, blankPosition, dotsPerFrame, linesPerFrame, dotsPerLine,
      vblankLine] at *
    omega

end InFrame

end Raster
end Ppu
end Famicom
