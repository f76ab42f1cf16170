/-
# The scroll plane

The four nametables lie side by side in a plane of 64 by 60 tiles.  A place in it is one row of one
tile, and is written as a number of 15 bits:

| bits | 14–12 | 11 | 10 | 9–5 | 4–0 |
| --- | --- | --- | --- | --- | --- |
| | row in the tile | lower tables | right tables | tile row | tile column |

The picture unit keeps two places: `t`, where the picture starts, and `v`, the one it is fetching.
`v` walks right tile by tile and down row by row, and goes back to `t`, column-wise at the end of
each line and row-wise before each frame.  The same two numbers serve as the address register for
accesses to memory.  Both are written in two writes each, which one toggle tells apart.

Tile rows 30 and 31 hold attributes; a walk that starts there wraps to row 0 of the same table.
-/

namespace Famicom
namespace Ppu
namespace Place

/-- The tile column of a place. -/
@[inline] def column (v : Nat) : Nat := v % 32

/-- The tile row of a place. -/
@[inline] def row (v : Nat) : Nat := v / 32 % 32

/-- Whether a place lies in the right tables: 1 or 0. -/
@[inline] def right (v : Nat) : Nat := v / 1024 % 2

/-- Whether a place lies in the lower tables: 1 or 0. -/
@[inline] def lower (v : Nat) : Nat := v / 2048 % 2

/-- The row in the tile of a place. -/
@[inline] def fineRow (v : Nat) : Nat := v / 4096 % 8

/-- The place with the given parts. -/
@[inline] def ofParts (fineRow lower right row column : Nat) : Nat :=
  fineRow * 4096 + lower * 2048 + right * 1024 + row * 32 + column

/-- A place is made of its parts, -/
theorem ofParts_self {v : Nat} (h : v < 32768) :
    ofParts (fineRow v) (lower v) (right v) (row v) (column v) = v := by
  simp only [ofParts, fineRow, lower, right, row, column]
  omega

/-- and parts in their ranges make a place of 15 bits. -/
theorem ofParts_lt {f l r w c : Nat} (hf : f < 8) (hl : l < 2) (hr : r < 2) (hw : w < 32)
    (hc : c < 32) : ofParts f l r w c < 32768 := by
  unfold ofParts
  omega

/-- One tile to the right. -/
def stepRight (v : Nat) : Nat :=
  if column v = 31 then ofParts (fineRow v) (lower v) (1 - right v) (row v) 0
  else v + 1

/-- One row down. -/
def stepDown (v : Nat) : Nat :=
  if fineRow v < 7 then v + 4096
  else if row v = 29 then ofParts 0 (1 - lower v) (right v) 0 (column v)
  else if row v = 31 then ofParts 0 (lower v) (right v) 0 (column v)
  else ofParts 0 (lower v) (right v) (row v + 1) (column v)

/-- The place `v` with the column of `t`. -/
def withColumnOf (v t : Nat) : Nat :=
  ofParts (fineRow v) (lower v) (right t) (row v) (column t)

/-- The place `v` with the row of `t`. -/
def withRowOf (v t : Nat) : Nat :=
  ofParts (fineRow t) (lower t) (right v) (row t) (column v)

/-- A step to the right keeps to the plane, -/
theorem stepRight_lt {v : Nat} (h : v < 32768) : stepRight v < 32768 := by
  unfold stepRight
  split
  · exact ofParts_lt (by unfold fineRow; omega) (by unfold lower; omega) (by omega)
      (by unfold row; omega) (by omega)
  · rename_i hc
    unfold column at hc
    omega

/-- as does one down, -/
theorem stepDown_lt {v : Nat} (h : v < 32768) : stepDown v < 32768 := by
  have hl : lower v < 2 := by unfold lower; omega
  have hr : right v < 2 := by unfold right; omega
  have hw : row v < 32 := by unfold row; omega
  have hc : column v < 32 := by unfold column; omega
  unfold stepDown
  split
  · rename_i hf
    unfold fineRow at hf
    omega
  · split
    · exact ofParts_lt (by omega) (by omega) hr (by omega) hc
    · split
      · exact ofParts_lt (by omega) hl hr (by omega) hc
      · exact ofParts_lt (by omega) hl hr (by omega) hc

/-- and so do the returns to a column -/
theorem withColumnOf_lt (v t : Nat) : withColumnOf v t < 32768 :=
  ofParts_lt (by unfold fineRow; omega) (by unfold lower; omega) (by unfold right; omega)
    (by unfold row; omega) (by unfold column; omega)

/-- and to a row. -/
theorem withRowOf_lt (v t : Nat) : withRowOf v t < 32768 :=
  ofParts_lt (by unfold fineRow; omega) (by unfold lower; omega) (by unfold right; omega)
    (by unfold row; omega) (by unfold column; omega)

/-- The address of the tile number at a place. -/
@[inline] def tileAddress (v : Nat) : Nat := 0x2000 + v % 0x1000

/-- The address of the byte that holds the palette of the tile at a place. -/
@[inline] def attributeAddress (v : Nat) : Nat :=
  0x23C0 + v / 1024 % 4 * 1024 + row v / 4 * 8 + column v / 4

/-- The palette of the tile at a place, the byte at its attribute address being given: two bits of
it, by the quarter that the tile is in. -/
@[inline] def palette (v : Nat) (attributes : UInt8) : Nat :=
  (attributes.toNat >>> (row v / 2 % 2 * 4 + column v / 2 % 2 * 2)) % 4

end Place

/-- The two places, the column in the tile, and the toggle of the double writes. -/
structure Scroll where
  /-- The place that is being fetched; also the address of memory. -/
  v : Nat := 0
  /-- Where the picture starts. -/
  t : Nat := 0
  /-- The column in the tile. -/
  fineX : Nat := 0
  /-- Whether the next write is the second of two. -/
  toggle : Bool := false
deriving DecidableEq, Repr

namespace Scroll

/-- The start lies in the given nametable. -/
def setNametable (s : Scroll) (n : Nat) : Scroll :=
  { s with
    t := Place.ofParts (Place.fineRow s.t) (n / 2 % 2) (n % 2) (Place.row s.t)
      (Place.column s.t) }

/-- A write to the scroll register: first the column, then the row, of the start. -/
def writeScroll (s : Scroll) (value : UInt8) : Scroll :=
  let n := value.toNat
  if s.toggle then
    { s with
      t := Place.ofParts (n % 8) (Place.lower s.t) (Place.right s.t) (n / 8) (Place.column s.t)
      toggle := false }
  else
    { s with
      t := Place.ofParts (Place.fineRow s.t) (Place.lower s.t) (Place.right s.t) (Place.row s.t)
        (n / 8)
      fineX := n % 8
      toggle := true }

/-- A write to the address register: first the upper six bits, then the lower eight. -/
def writeAddress (s : Scroll) (value : UInt8) : Scroll :=
  let n := value.toNat
  if s.toggle then
    let t := s.t / 256 * 256 + n
    { s with v := t, t, toggle := false }
  else
    { s with t := n % 64 * 256 + s.t % 256, toggle := true }

/-- The address of memory goes on by `n`. -/
def advance (s : Scroll) (n : Nat) : Scroll := { s with v := (s.v + n) % 0x8000 }

/-- One tile to the right. -/
@[inline] def stepRight (s : Scroll) : Scroll := { s with v := Place.stepRight s.v }

/-- One row down. -/
@[inline] def stepDown (s : Scroll) : Scroll := { s with v := Place.stepDown s.v }

/-- Back to the column of the start. -/
@[inline] def returnColumn (s : Scroll) : Scroll := { s with v := Place.withColumnOf s.v s.t }

/-- Back to the row of the start. -/
@[inline] def returnRow (s : Scroll) : Scroll := { s with v := Place.withRowOf s.v s.t }

/-- The next write is a first one. -/
def clearToggle (s : Scroll) : Scroll := { s with toggle := false }

end Scroll
end Ppu
end Famicom
