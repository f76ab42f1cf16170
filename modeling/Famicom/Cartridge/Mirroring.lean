/-
# Nametable mirroring

The picture unit sees four nametables of 1 KB at `$2000`, `$2400`, `$2800` and
`$2C00`.  The cartridge decides which of the four tables of its own memory each
of these windows shows:

| mirroring | `$2000` | `$2400` | `$2800` | `$2C00` |
| --- | ---: | ---: | ---: | ---: |
| horizontal | 0 | 0 | 1 | 1 |
| vertical | 0 | 1 | 0 | 1 |
| lower screen | 0 | 0 | 0 | 0 |
| upper screen | 1 | 1 | 1 | 1 |
| four screens | 0 | 1 | 2 | 3 |
-/

namespace Famicom

/-- Which table of nametable memory each of the four windows shows. -/
inductive Mirroring where
  | horizontal
  | vertical
  | lowerScreen
  | upperScreen
  | fourScreen
deriving DecidableEq, Repr

namespace Mirroring

/-- The table that window `w` shows, for `w < 4`. -/
@[inline] def table (m : Mirroring) (w : Nat) : Nat :=
  match m with
  | horizontal => w / 2
  | vertical => w % 2
  | lowerScreen => 0
  | upperScreen => 1
  | fourScreen => w

/-- Four windows show four tables at most, -/
theorem table_lt (m : Mirroring) {w : Nat} (h : w < 4) : m.table w < 4 := by
  cases m <;> simp only [table] <;> omega

/-- The window an address falls into: bits 10 and 11. -/
@[inline] def window (address : Nat) : Nat := address / 1024 % 4

/-- The cell of nametable memory that an address selects. -/
@[inline] def offset (m : Mirroring) (address : Nat) : Nat :=
  m.table (window address) * 1024 + address % 1024

/-- which is 4 KB. -/
theorem offset_lt (m : Mirroring) (address : Nat) : m.offset address < 4096 := by
  have := m.table_lt (w := window address) (by unfold window; omega)
  unfold offset
  omega

/-- The lower left window shows the second table if tables are side by side on the screen, and the
first one if they are above each other. -/
example : horizontal.offset 0x2805 = 0x405 ∧ vertical.offset 0x2805 = 5 := by decide

/-- The name of a mirroring. -/
def name : Mirroring → String
  | horizontal => "Horizontal"
  | vertical => "Vertical"
  | lowerScreen => "SingleScreenLower"
  | upperScreen => "SingleScreenUpper"
  | fourScreen => "FourScreen"

end Mirroring
end Famicom
