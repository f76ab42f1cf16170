/-
# Memory chips

A chip is a nonempty array of bytes.  Its address lines wrap: an address past the
end selects the cell it is congruent to modulo the size, as a chip does whose
upper address lines are not connected.  So reading and writing are total and need
no bound.
-/

namespace Famicom

/-- A nonempty array of bytes, addressed modulo its size. -/
structure Chip where
  bytes : Array UInt8
  nonempty : 0 < bytes.size

namespace Chip

/-- The number of cells. -/
@[inline] def size (c : Chip) : Nat := c.bytes.size

/-- A chip of `n` zero bytes. -/
def zeros (n : Nat) (h : 0 < n) : Chip := ⟨Array.replicate n 0, by simpa using h⟩

/-- The chip that holds `length` bytes of `image` from `offset` on. -/
def ofSlice (image : Array UInt8) (offset length : Nat) (pos : 0 < length)
    (fits : offset + length ≤ image.size) : Chip :=
  ⟨image.extract offset (offset + length), by simp only [Array.size_extract]; omega⟩

/-- The byte in the cell that address `i` selects. -/
@[inline] def read (c : Chip) (i : Nat) : UInt8 :=
  have := Nat.mod_lt i c.nonempty
  c.bytes[i % c.bytes.size]

/-- The chip with `v` in the cell that address `i` selects. -/
@[inline] def write (c : Chip) (i : Nat) (v : UInt8) : Chip :=
  ⟨c.bytes.set (i % c.bytes.size) v (Nat.mod_lt _ c.nonempty), by
    rw [Array.size_set]; exact c.nonempty⟩

/-- Writing leaves the size of a chip. -/
@[simp] theorem size_write (c : Chip) (i : Nat) (v : UInt8) : (c.write i v).size = c.size := by
  simp [write, size]

/-- **What a chip holds after a write.**  The written value where the two addresses
select the same cell, and what was there before everywhere else. -/
theorem read_write (c : Chip) (i j : Nat) (v : UInt8) :
    (c.write i v).read j = if i % c.size = j % c.size then v else c.read j := by
  simp only [read, write, size, Array.getElem_set, Array.size_set]
  split <;> simp_all

end Chip
end Famicom
