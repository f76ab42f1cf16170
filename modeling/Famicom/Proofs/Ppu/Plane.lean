/-
# Sums on the scroll plane

The plane is 64 tiles wide and 480 rows of pixels high, and the parts of a place are spread over
its bits. What a walk does is simpler than how it does it: as long as it keeps off the rows of
attributes, `n` steps to the right add `n` to how far the place is from the left, `n` steps down
add `n` to how far it is from the top, and both wrap around at the end of the plane
(`Place.fromLeft_iterate_stepRight`, `Place.fromTop_iterate_stepDown`).  A step in one direction
touches no bit that belongs to the other, so a walk that changes direction comes to the same place
as one that goes right first and then down (`Place.foldl_go`).

A walk down that starts at attributes goes on to the last row of them, and from there to the top of
the table that it is in (`Place.iterate_stepDown_of_attributes`).
-/

import Mathlib.Data.List.Induction
import Mathlib.Data.Nat.Bitwise
import Famicom.Proofs.Ppu.Places

namespace Famicom
namespace Ppu
namespace Place

/-- How many tiles a place is from the left of the plane. -/
def fromLeft (v : Nat) : Nat := 32 * right v + column v

/-- How many rows of pixels a place is from the top of its table. -/
def fromTableTop (v : Nat) : Nat := 8 * row v + fineRow v

/-- How many rows of pixels a place is from the top of the plane. -/
def fromTop (v : Nat) : Nat := 240 * lower v + fromTableTop v

variable {u v : Nat}

/-- Two places are in one column exactly if they are as far from the left: the table on the right is
32 tiles further. -/
theorem sameColumn_iff : SameColumn u v ↔ fromLeft u = fromLeft v := by
  have := right_lt u
  have := right_lt v
  have := column_lt u
  have := column_lt v
  unfold SameColumn fromLeft
  omega

/-- Two places are in one row exactly if they are as far from the top of their tables, and the
tables are side by side. -/
theorem sameRow_iff : SameRow u v ↔ fromTableTop u = fromTableTop v ∧ lower u = lower v := by
  have := fineRow_lt u
  have := fineRow_lt v
  unfold SameRow fromTableTop
  omega

/-- A place is known from its row and its column. -/
theorem eq_of_sameRow_of_sameColumn (hu : u < 32768) (hv : v < 32768) (hr : SameRow u v)
    (hc : SameColumn u v) : u = v := by
  rw [← ofParts_self hu, ← ofParts_self hv, hr.1, hr.2.1, hr.2.2, hc.1, hc.2]

/-! ### The bits of a place -/

/-- A part of a place is some of its bits. -/
theorem testBit_part (v k : Nat) {w i : Nat} (hi : i < w) :
    (v / 2 ^ k % 2 ^ w).testBit i = v.testBit (i + k) := by
  rw [Nat.testBit_mod_two_pow, decide_eq_true hi, Bool.true_and, Nat.testBit_div_two_pow]

/-- The column is in bits 0 to 4. -/
theorem testBit_column {i : Nat} (hi : i < 5) : (column v).testBit i = v.testBit i := by
  have h := testBit_part v 0 hi
  rwa [Nat.pow_zero, Nat.div_one] at h

/-- The row of tiles is in bits 5 to 9. -/
theorem testBit_row {i : Nat} (hi : i < 5) : (row v).testBit i = v.testBit (i + 5) :=
  testBit_part v 5 hi

/-- The table to the right is bit 10. -/
theorem testBit_right : (right v).testBit 0 = v.testBit 10 := testBit_part v 10 Nat.one_pos

/-- The lower table is bit 11. -/
theorem testBit_lower : (lower v).testBit 0 = v.testBit 11 := testBit_part v 11 Nat.one_pos

/-- The row within a tile is in bits 12 to 14. -/
theorem testBit_fineRow {i : Nat} (hi : i < 3) : (fineRow v).testBit i = v.testBit (i + 12) :=
  testBit_part v 12 hi

/-- A place has 15 bits. -/
theorem testBit_of_le (hv : v < 32768) {i : Nat} (hi : 15 ≤ i) : v.testBit i = false :=
  Nat.testBit_lt_two_pow
    (Nat.lt_of_lt_of_le (show v < 2 ^ 15 from hv) (Nat.pow_le_pow_right (by decide) hi))

/-- Places in one row differ in the five lowest bits and in bit 10 at most. -/
theorem SameRow.testBit (h : SameRow u v) (hu : u < 32768) (hv : v < 32768) {i : Nat} (hi : 5 ≤ i)
    (ht : i ≠ 10) : u.testBit i = v.testBit i := by
  obtain ⟨hf, hl, hw⟩ := h
  rcases Nat.lt_or_ge i 10 with h₁₀ | h₁₀
  · obtain ⟨j, rfl⟩ := Nat.exists_eq_add_of_le' hi
    rw [← testBit_row (by omega), hw, testBit_row (by omega)]
  · rcases Nat.lt_or_ge i 12 with h₁₂ | h₁₂
    · obtain rfl : i = 11 := by omega
      rw [← testBit_lower, hl, testBit_lower]
    · rcases Nat.lt_or_ge i 15 with h₁₅ | h₁₅
      · obtain ⟨j, rfl⟩ := Nat.exists_eq_add_of_le' h₁₂
        rw [← testBit_fineRow (by omega), hf, testBit_fineRow (by omega)]
      · rw [testBit_of_le hu h₁₅, testBit_of_le hv h₁₅]

/-- Places in one column of tiles have these bits in common. -/
theorem SameColumn.testBit (h : SameColumn u v) (hu : u < 32768) (hv : v < 32768) {i : Nat}
    (hi : i < 5 ∨ i = 10 ∨ 15 ≤ i) : u.testBit i = v.testBit i := by
  obtain ⟨hr, hc⟩ := h
  obtain h₅ | rfl | h₁₅ := hi
  · rw [← testBit_column h₅, hc, testBit_column h₅]
  · rw [← testBit_right, hr, testBit_right]
  · rw [testBit_of_le hu h₁₅, testBit_of_le hv h₁₅]

/-! ### One step -/

/-- **A step to the right** goes one tile further. -/
theorem fromLeft_stepRight (v : Nat) : fromLeft (stepRight v) = (fromLeft v + 1) % 64 := by
  have hl := lower_lt v
  have hr := right_lt v
  have hw := row_lt v
  have hc := column_lt v
  unfold stepRight
  split
  · rw [fromLeft, right_ofParts (by omega) hw (by omega), column_ofParts (by omega), fromLeft]
    omega
  · next h =>
    have hr' : right (v + 1) = right v := by
      unfold column at h
      unfold right
      omega
    have hc' : column (v + 1) = column v + 1 := by
      unfold column at h ⊢
      omega
    rw [fromLeft, hr', hc', fromLeft]
    omega

/-- To the right of the last column of a table is the first one of the other. -/
example : stepRight 0x001F = 0x0400 ∧ stepRight 0x041F = 0x0000 := by decide

/-- **A step down** keeps the column, and goes one row of pixels further, within the table unless
it ends there. -/
theorem stepDown_cases (v : Nat) :
    SameColumn (stepDown v) v ∧
      (fromTableTop v ≠ 239 ∧ fromTableTop v ≠ 255 ∧
        fromTableTop (stepDown v) = fromTableTop v + 1 ∧
          lower (stepDown v) = lower v ∨
        fromTableTop v = 239 ∧ fromTableTop (stepDown v) = 0 ∧ lower (stepDown v) = 1 - lower v ∨
        fromTableTop v = 255 ∧ fromTableTop (stepDown v) = 0 ∧ lower (stepDown v) = lower v) := by
  have hf := fineRow_lt v
  have hl := lower_lt v
  have hr := right_lt v
  have hw := row_lt v
  have hc := column_lt v
  unfold stepDown
  -- within a tile only the row in it changes, by one
  split
  · next h =>
    have hf' : fineRow (v + 4096) = fineRow v + 1 := by
      unfold fineRow at h ⊢
      omega
    have hw' : row (v + 4096) = row v := by
      unfold row
      omega
    have hl' : lower (v + 4096) = lower v := by
      unfold lower
      omega
    refine ⟨by unfold SameColumn right column; omega, .inl ?_⟩
    unfold fromTableTop
    rw [hf', hw']
    exact ⟨by omega, by omega, by omega, hl'⟩
  · -- from the last row of a tile the place is put together anew
    have parts {l w : Nat} (hl : l < 2) (hw : w < 32) :
        let u := ofParts 0 l (right v) w (column v)
        SameColumn u v ∧ fromTableTop u = 8 * w ∧ lower u = l := by
      refine ⟨⟨right_ofParts hr hw hc, column_ofParts hc⟩, ?_, lower_ofParts hl hr hw hc⟩
      rw [fromTableTop, row_ofParts hw hc, fineRow_ofParts (by decide) hl hr hw hc, Nat.add_zero]
    split
    · next h =>
      obtain ⟨hs, ht, hl'⟩ := parts (l := 1 - lower v) (w := 0) (by omega) (by decide)
      exact ⟨hs, .inr (.inl ⟨by unfold fromTableTop; omega, ht, hl'⟩)⟩
    · split
      · obtain ⟨hs, ht, hl'⟩ := parts (w := 0) hl (by decide)
        exact ⟨hs, .inr (.inr ⟨by unfold fromTableTop; omega, ht, hl'⟩)⟩
      · obtain ⟨hs, ht, hl'⟩ := parts (w := row v + 1) hl (by omega)
        refine ⟨hs, .inl ⟨by unfold fromTableTop; omega, by unfold fromTableTop; omega, ?_, hl'⟩⟩
        rw [ht, fromTableTop]
        omega

/-- The rows of tiles 0 to 29 are the picture's, 240 rows of pixels; in the rows 30 and 31 the
attributes are. -/
theorem row_lt_iff (v : Nat) : row v < 30 ↔ fromTableTop v < 240 := by
  have := fineRow_lt v
  unfold fromTableTop
  omega

/-- A walk down that starts in the picture stays in it. -/
theorem row_stepDown_lt (h : row v < 30) : row (stepDown v) < 30 := by
  rw [row_lt_iff] at h ⊢
  have := (stepDown_cases v).2
  omega

/-- Behind the last row of attributes comes the first row of the same table. -/
example : stepDown 0x73E5 = 0x0005 ∧ stepDown 0x7BE5 = 0x0805 := by decide

/-- Off the attributes a step down wraps around at the end of the plane only. -/
theorem fromTop_stepDown (h : row v < 30) : fromTop (stepDown v) = (fromTop v + 1) % 480 := by
  have hl := lower_lt v
  rw [row_lt_iff] at h
  have := (stepDown_cases v).2
  unfold fromTop
  omega

/-- Below the last row of the upper tables is the first one of the lower, and below theirs is the
top. -/
example : fromTop 0x73A0 = 239 ∧ stepDown 0x73A0 = 0x0800 ∧ stepDown 0x7BA0 = 0 := by decide

/-! ### Walks -/

/-- A place has fifteen bits after any number of steps to the right. -/
theorem iterate_stepRight_lt (hv : v < 32768) (n : Nat) : stepRight^[n] v < 32768 :=
  Function.Iterate.rec _ hv (fun _ => stepRight_lt) n

/-- A place has fifteen bits after any number of steps down. -/
theorem iterate_stepDown_lt (hv : v < 32768) (n : Nat) : stepDown^[n] v < 32768 :=
  Function.Iterate.rec _ hv (fun _ => stepDown_lt) n

/-- **A walk to the right** adds to the distance from the left. -/
theorem fromLeft_iterate_stepRight (v n : Nat) :
    fromLeft (stepRight^[n] v) = (fromLeft v + n) % 64 := by
  induction n with
  | zero =>
    have := right_lt v
    have := column_lt v
    rw [Function.iterate_zero_apply, Nat.add_zero, Nat.mod_eq_of_lt (by unfold fromLeft; omega)]
  | succ n ih =>
    rw [Function.iterate_succ_apply', fromLeft_stepRight, ih]
    omega

/-- Walking right, a place stays in its row. -/
theorem sameRow_iterate_stepRight (v n : Nat) : SameRow (stepRight^[n] v) v := by
  induction n with
  | zero => exact ⟨rfl, rfl, rfl⟩
  | succ n ih =>
    rw [Function.iterate_succ_apply']
    have h := sameRow_stepRight (stepRight^[n] v)
    exact ⟨h.1.trans ih.1, h.2.1.trans ih.2.1, h.2.2.trans ih.2.2⟩

/-- Any number of steps down from the picture leads into the picture. -/
theorem row_iterate_stepDown_lt (h : row v < 30) (n : Nat) : row (stepDown^[n] v) < 30 :=
  Function.Iterate.rec (fun u => row u < 30) h (fun _ => row_stepDown_lt) n

/-- **A walk down** that starts off the attributes adds to the distance from the top. -/
theorem fromTop_iterate_stepDown (h : row v < 30) (n : Nat) :
    fromTop (stepDown^[n] v) = (fromTop v + n) % 480 := by
  induction n with
  | zero =>
    have := lower_lt v
    rw [row_lt_iff] at h
    rw [Function.iterate_zero_apply, Nat.add_zero, Nat.mod_eq_of_lt (by unfold fromTop; omega)]
  | succ n ih =>
    rw [Function.iterate_succ_apply', fromTop_stepDown (row_iterate_stepDown_lt h n), ih]
    omega

/-- Walking down, a place stays in its column. -/
theorem sameColumn_iterate_stepDown (v n : Nat) : SameColumn (stepDown^[n] v) v := by
  induction n with
  | zero => exact ⟨rfl, rfl⟩
  | succ n ih =>
    rw [Function.iterate_succ_apply']
    have h := (stepDown_cases (stepDown^[n] v)).1
    exact ⟨h.1.trans ih.1, h.2.trans ih.2⟩

/-- A walk down over attributes stays in the table. -/
theorem attributes_iterate_stepDown (h : 30 ≤ row v) {n : Nat} (hn : n + fromTableTop v < 256) :
    fromTableTop (stepDown^[n] v) = n + fromTableTop v ∧ lower (stepDown^[n] v) = lower v := by
  induction n with
  | zero => exact ⟨(Nat.zero_add _).symm, rfl⟩
  | succ n ih =>
    obtain ⟨ht, hl⟩ := ih (by omega)
    have h₀ : 240 ≤ fromTableTop v := by
      unfold fromTableTop
      omega
    have := (stepDown_cases (stepDown^[n] v)).2
    rw [Function.iterate_succ_apply']
    omega

/-- **A walk down from attributes** comes to the top of the table that it is in. -/
theorem iterate_stepDown_of_attributes (hv : v < 32768) (h : 30 ≤ row v) :
    stepDown^[256 - fromTableTop v] v = ofParts 0 (lower v) (right v) 0 (column v) := by
  have hl := lower_lt v
  have hr := right_lt v
  have hc := column_lt v
  have hf := fineRow_lt v
  have hw := row_lt v
  have h₀ : fromTableTop v < 256 := by
    unfold fromTableTop
    omega
  have hn : 256 - fromTableTop v = 255 - fromTableTop v + 1 := by omega
  obtain ⟨ht, hl'⟩ := attributes_iterate_stepDown h (n := 255 - fromTableTop v) (by omega)
  have hs := (stepDown_cases (stepDown^[255 - fromTableTop v] v)).2
  refine eq_of_sameRow_of_sameColumn (iterate_stepDown_lt hv _)
    (ofParts_lt (by decide) hl hr (by decide) hc)
    (sameRow_iff.2 ?_) ?_
  · rw [hn, Function.iterate_succ_apply', fromTableTop.eq_def (ofParts ..),
      row_ofParts (by decide) hc, fineRow_ofParts (by decide) hl hr (by decide) hc,
      lower_ofParts hl hr (by decide) hc]
    omega
  · obtain ⟨hr', hc'⟩ := sameColumn_iterate_stepDown v (256 - fromTableTop v)
    exact ⟨hr'.trans (right_ofParts hr (by decide) hc).symm, hc'.trans (column_ofParts hc).symm⟩

/-! ### Walks that change direction -/

/-- Places in one row go down together: a step down looks at the row alone. -/
theorem SameRow.stepDown (h : SameRow u v) : SameRow (stepDown u) (stepDown v) := by
  rw [sameRow_iff] at h ⊢
  have hu := (stepDown_cases u).2
  have hv := (stepDown_cases v).2
  have := lower_lt v
  omega

/-- Places in one column go right together: a step to the right looks at the column alone. -/
theorem SameColumn.stepRight (h : SameColumn u v) : SameColumn (stepRight u) (stepRight v) := by
  rw [sameColumn_iff] at h ⊢
  rw [fromLeft_stepRight, fromLeft_stepRight, h]

/-- **A step to the right and a step down** lead to the same place, whichever comes first. -/
theorem stepRight_stepDown (hv : v < 32768) : stepRight (stepDown v) = stepDown (stepRight v) := by
  have hr := sameRow_stepRight (stepDown v)
  have hr' := (sameRow_stepRight v).stepDown
  have hc := (stepDown_cases v).1.stepRight
  have hc' := (stepDown_cases (stepRight v)).1
  exact eq_of_sameRow_of_sameColumn (stepRight_lt (stepDown_lt hv)) (stepDown_lt (stepRight_lt hv))
    ⟨hr.1.trans hr'.1.symm, hr.2.1.trans hr'.2.1.symm, hr.2.2.trans hr'.2.2.symm⟩
    ⟨hc.1.trans hc'.1.symm, hc.2.trans hc'.2.symm⟩

/-- One step to the right may come before or after any number of steps down. -/
theorem stepRight_iterate_stepDown (hv : v < 32768) (n : Nat) :
    stepRight (stepDown^[n] v) = stepDown^[n] (stepRight v) := by
  induction n with
  | zero => rfl
  | succ n ih =>
    rw [Function.iterate_succ_apply', Function.iterate_succ_apply',
      stepRight_stepDown (iterate_stepDown_lt hv n), ih]

/-- The directions of a walk. -/
inductive Direction where
  | right
  | down
deriving DecidableEq, Repr

/-- One step in a direction. -/
def go (v : Nat) : Direction → Nat
  | .right => stepRight v
  | .down => stepDown v

/-- **Of a walk only the numbers of its steps matter**, not their order. -/
theorem foldl_go (hv : v < 32768) (walk : List Direction) :
    walk.foldl go v = stepDown^[walk.count .down] (stepRight^[walk.count .right] v) := by
  induction walk using List.reverseRecOn with
  | nil => rfl
  | append_singleton walk d ih =>
    rw [List.foldl_append, ih, List.count_append, List.count_append]
    cases d with
    | right =>
      show stepRight _ = stepDown^[walk.count .down] (stepRight^[walk.count .right + 1] v)
      rw [stepRight_iterate_stepDown (iterate_stepRight_lt hv _), Function.iterate_succ_apply']
    | down =>
      show stepDown _ = stepDown^[walk.count .down + 1] (stepRight^[walk.count .right] v)
      rw [Function.iterate_succ_apply']

/-- **Walks are sums.**  From any place `n` steps to the right add `n` modulo 64 to its distance
from the left, and change no bits but those of the column.  From a place off the attributes `n`
steps down add `n` modulo 480 to its distance from the top, and change no bits but those of the
row.  The steps of a walk can be taken in any order.  And from attributes a walk down comes to row
0 of the table that it is in, with nothing but attributes on its way. -/
theorem walks_are_sums (hv : v < 32768) :
    (∀ n, let u := stepRight^[n] v
      fromLeft u = (fromLeft v + n) % 64 ∧ ∀ i, 5 ≤ i → i ≠ 10 → u.testBit i = v.testBit i) ∧
    (row v < 30 → ∀ n, let u := stepDown^[n] v
      fromTop u = (fromTop v + n) % 480 ∧
        ∀ i, i < 5 ∨ i = 10 ∨ 15 ≤ i → u.testBit i = v.testBit i) ∧
    (∀ walk : List Direction,
      walk.foldl go v = stepDown^[walk.count .down] (stepRight^[walk.count .right] v)) ∧
    (30 ≤ row v → let n := 256 - fromTableTop v
      stepDown^[n] v = ofParts 0 (lower v) (right v) 0 (column v) ∧
        ∀ k < n, 30 ≤ row (stepDown^[k] v) ∧ lower (stepDown^[k] v) = lower v) := by
  refine ⟨fun n => ⟨fromLeft_iterate_stepRight v n, fun i hi ht => ?_⟩,
    fun h n => ⟨fromTop_iterate_stepDown h n, fun i hi => ?_⟩, foldl_go hv,
    fun h => ⟨iterate_stepDown_of_attributes hv h, fun k hk => ?_⟩⟩
  · exact (sameRow_iterate_stepRight v n).testBit (iterate_stepRight_lt hv n) hv hi ht
  · exact (sameColumn_iterate_stepDown v n).testBit (iterate_stepDown_lt hv n) hv hi
  · obtain ⟨ht, hl⟩ := attributes_iterate_stepDown h (n := k) (by omega)
    refine ⟨Nat.le_of_not_lt fun hlt => ?_, hl⟩
    rw [row_lt_iff, ht] at hlt
    unfold fromTableTop at hlt
    omega

/-- From the last place of the plane that is not among attributes, in both directions and in turn;
and from the fourth row of pixels in the first row of attributes. -/
theorem walks_are_sums_around :
    let v := ofParts 7 1 1 29 31
    let a := ofParts 3 0 1 30 5
    let walk : List Direction := [.down, .right, .right, .down]
    (v < 32768 ∧ row v < 30) ∧ (a < 32768 ∧ 30 ≤ row a) ∧
      (fromLeft (stepRight^[40] v) = 39 ∧ (stepRight^[40] v).testBit 13 = true) ∧
      (fromTop (stepDown^[490] v) = 9 ∧ (stepDown^[490] v).testBit 10 = true) ∧
      walk.foldl go v = stepDown^[2] (stepRight^[2] v) ∧
      (stepDown^[13] a = ofParts 0 0 1 0 5 ∧ 30 ≤ row (stepDown^[12] a)) := by
  intro v a walk
  have hv : v < 32768 := by decide
  have hr : row v < 30 := by decide
  have ha : a < 32768 := by decide
  have hw : 30 ≤ row a := by decide
  -- one place in the picture, at its right and lower edge, and one among the attributes
  obtain ⟨across, down, order, -⟩ := walks_are_sums hv
  obtain ⟨-, -, -, through⟩ := walks_are_sums ha
  obtain ⟨left, left_bits⟩ := across 40
  obtain ⟨top, top_bits⟩ := down hr 490
  obtain ⟨reached, passed⟩ := through hw
  have hl : (fromLeft v + 40) % 64 = 39 := by decide
  have ht : (fromTop v + 490) % 480 = 9 := by decide
  have hn : 256 - fromTableTop a = 13 := by decide
  have hp : ofParts 0 (lower a) (right a) 0 (column a) = ofParts 0 0 1 0 5 := by decide
  rw [hn, hp] at reached
  rw [hn] at passed
  have h₁₃ : v.testBit 13 = true := by decide
  have h₁₀ : v.testBit 10 = true := by decide
  exact ⟨⟨hv, hr⟩, ⟨ha, hw⟩, ⟨left.trans hl, (left_bits 13 (by decide) (by decide)).trans h₁₃⟩,
    ⟨top.trans ht, (top_bits 10 (by decide)).trans h₁₀⟩, order walk,
      ⟨reached, (passed 12 (by decide)).1⟩⟩

end Place
end Ppu
end Famicom
