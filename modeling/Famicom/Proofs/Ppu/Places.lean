/-
# Walking over the scroll plane

To the right a walk changes only the column of a place, downwards only its row.  So a line that is
walked along, and whose column is then put back to that of the start, is left one row further down
(`Place.withColumnOf_walk`), and a place that gets both its column and its row from the start is
the start (`Place.withRowOf_withColumnOf`).
-/

import Mathlib.Logic.Function.Iterate
import Famicom.Ppu.Scroll

namespace Famicom
namespace Ppu
namespace Place

/-- A tile has eight rows of pixels. -/
theorem fineRow_lt (v : Nat) : fineRow v < 8 := Nat.mod_lt _ (by omega)

/-- There is one table above and one below. -/
theorem lower_lt (v : Nat) : lower v < 2 := Nat.mod_lt _ (by omega)

/-- There is one table on the left and one on the right. -/
theorem right_lt (v : Nat) : right v < 2 := Nat.mod_lt _ (by omega)

/-- The row of a place is five bits, two rows more than a table shows. -/
theorem row_lt (v : Nat) : row v < 32 := Nat.mod_lt _ (by omega)

/-- The column of a place is five bits. -/
theorem column_lt (v : Nat) : column v < 32 := Nat.mod_lt _ (by omega)

variable {f l r w c t : Nat}

/-- The row within a tile can be read back from a place that is put together. -/
theorem fineRow_ofParts (hf : f < 8) (hl : l < 2) (hr : r < 2) (hw : w < 32) (hc : c < 32) :
    fineRow (ofParts f l r w c) = f := by
  unfold fineRow ofParts
  omega

/-- Whether the table is a lower one can be read back. -/
theorem lower_ofParts (hl : l < 2) (hr : r < 2) (hw : w < 32) (hc : c < 32) :
    lower (ofParts f l r w c) = l := by
  unfold lower ofParts
  omega

/-- Whether the table is on the right can be read back. -/
theorem right_ofParts (hr : r < 2) (hw : w < 32) (hc : c < 32) :
    right (ofParts f l r w c) = r := by
  unfold right ofParts
  omega

/-- The row of tiles can be read back. -/
theorem row_ofParts (hw : w < 32) (hc : c < 32) : row (ofParts f l r w c) = w := by
  unfold row ofParts
  omega

/-- The column can be read back: it is the lowest part. -/
theorem column_ofParts (hc : c < 32) : column (ofParts f l r w c) = c := by
  unfold column ofParts
  omega

/-- The column of the start replaces the column of a place that is given by its parts. -/
theorem withColumnOf_ofParts (hf : f < 8) (hl : l < 2) (hr : r < 2) (hw : w < 32) (hc : c < 32)
    (t : Nat) : withColumnOf (ofParts f l r w c) t = ofParts f l (right t) w (column t) := by
  rw [withColumnOf, fineRow_ofParts hf hl hr hw hc, lower_ofParts hl hr hw hc, row_ofParts hw hc]

/-- Two places are in the same row of the plane. -/
def SameRow (u v : Nat) : Prop := fineRow u = fineRow v ∧ lower u = lower v ∧ row u = row v

/-- Two places are in the same column of tiles. -/
def SameColumn (u v : Nat) : Prop := right u = right v ∧ column u = column v

/-- A step to the right keeps the row. -/
theorem sameRow_stepRight (v : Nat) : SameRow (stepRight v) v := by
  have hf := fineRow_lt v
  have hl := lower_lt v
  have hr : 1 - right v < 2 := by omega
  have hw := row_lt v
  have hc : 0 < 32 := by omega
  unfold stepRight
  split
  · exact ⟨fineRow_ofParts hf hl hr hw hc, lower_ofParts hl hr hw hc, row_ofParts hw hc⟩
  · rename_i h
    unfold column at h
    unfold SameRow fineRow lower row
    omega

/-- A place with the column of the start is in the row that it was in. -/
theorem sameRow_withColumnOf (v t : Nat) : SameRow (withColumnOf v t) v :=
  have hl := lower_lt v
  have hr := right_lt t
  have hw := row_lt v
  have hc := column_lt t
  ⟨fineRow_ofParts (fineRow_lt v) hl hr hw hc, lower_ofParts hl hr hw hc, row_ofParts hw hc⟩

/-- Back at the left of the picture, a place has the column it starts in. -/
theorem sameColumn_withColumnOf (v t : Nat) : SameColumn (withColumnOf v t) t :=
  ⟨right_ofParts (right_lt t) (row_lt v) (column_lt t), column_ofParts (column_lt t)⟩

/-- What comes back to the left depends on the row alone. -/
theorem withColumnOf_congr {u v : Nat} (h : SameRow u v) (t : Nat) :
    withColumnOf u t = withColumnOf v t := by
  rw [withColumnOf, withColumnOf, h.1, h.2.1, h.2.2]

/-- However far a line has been walked to the right, its start is found again. -/
theorem withColumnOf_iterate_stepRight (n v t : Nat) :
    withColumnOf (stepRight^[n] v) t = withColumnOf v t := by
  induction n with
  | zero => rfl
  | succ n ih =>
    rw [Function.iterate_succ_apply', withColumnOf_congr (sameRow_stepRight _), ih]

/-- A step down keeps the column, and goes to the same row from every column. -/
theorem withColumnOf_stepDown (v t : Nat) :
    withColumnOf (stepDown v) t = stepDown (withColumnOf v t) := by
  obtain ⟨hf, hl, hw⟩ := sameRow_withColumnOf v t
  obtain ⟨hr, hc⟩ := sameColumn_withColumnOf v t
  have hl₀ := lower_lt v
  have hl₁ : 1 - lower v < 2 := by omega
  have hr₀ := right_lt v
  have hw₀ := row_lt v
  have hc₀ := column_lt v
  unfold stepDown
  rw [hf, hl, hw, hr, hc]
  -- a step down within a tile, out of the last row, out of the attributes, or to the next tile
  split
  · rename_i h
    have hf' : fineRow (v + 4096) = fineRow v + 1 := by
      unfold fineRow at h ⊢
      omega
    have hl' : lower (v + 4096) = lower v := by
      unfold lower
      omega
    have hw' : row (v + 4096) = row v := by
      unfold row
      omega
    rw [withColumnOf, withColumnOf, hf', hl', hw']
    unfold ofParts
    omega
  · split
    · exact withColumnOf_ofParts (by omega) hl₁ hr₀ (by omega) hc₀ t
    · split
      · exact withColumnOf_ofParts (by omega) hl₀ hr₀ (by omega) hc₀ t
      · exact withColumnOf_ofParts (by omega) hl₀ hr₀ (by omega) hc₀ t

/-- A place below the start has the column of the start. -/
theorem withColumnOf_iterate_stepDown (h : t < 32768) (y : Nat) :
    withColumnOf (stepDown^[y] t) t = stepDown^[y] t := by
  induction y with
  | zero => exact ofParts_self h
  | succ y ih => rw [Function.iterate_succ_apply', withColumnOf_stepDown, ih]

/-- **At the end of a line the place goes to the start of the next**, however far the line has been
walked along. -/
theorem withColumnOf_walk (h : t < 32768) (n y : Nat) :
    withColumnOf (stepDown (stepRight^[n] (stepDown^[y] t))) t = stepDown^[y + 1] t := by
  rw [withColumnOf_stepDown, withColumnOf_iterate_stepRight, withColumnOf_iterate_stepDown h,
    Function.iterate_succ_apply']

/-- A place that is set to its own row is where it was. -/
theorem withRowOf_self (h : t < 32768) : withRowOf t t = t := ofParts_self h

/-- A place with the column and the row of the start is the start. -/
theorem withRowOf_withColumnOf (h : t < 32768) (v : Nat) :
    withRowOf (withColumnOf v t) t = t := by
  obtain ⟨hr, hc⟩ := sameColumn_withColumnOf v t
  rw [withRowOf, hr, hc]
  exact ofParts_self h

end Place
end Ppu
end Famicom
