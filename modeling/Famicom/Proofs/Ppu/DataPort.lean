/-
# The data port

A program fills memory through one register: it writes an address, and then the bytes, and the
address goes on by itself.  To read them it writes the address again; but a read gives the byte
that the read before has fetched, so the first one gives a byte that has nothing to do with the
address, and is thrown away (`Ppu.bytes_readBytes`).  The last of the others fetches a byte from
behind the bytes, which must not be palette memory: that answers at once.

What comes back is what has been written if there is room for it (`Board.Room`): character ROM
keeps no bytes, and of two addresses that the mirroring or the banks lead to one cell only the
later one would keep its byte.
-/

import Famicom.Proofs.Board.Cells
import Famicom.Proofs.Ppu.DoubleWrites

namespace Famicom
namespace Board

/-! ### Bytes on a board -/

variable {b : Board} {address step n : Nat}

/-- The picture unit writes bytes from an address on, `step` apart. -/
def writePpuFrom (b : Board) (address step : Nat) : List UInt8 → Board
  | [] => b
  | v :: rest => (b.writePpu address v).writePpuFrom (address + step) step rest

/-- There is room for `n` bytes from an address on, `step` apart: each address has a cell of its
own, and it is one of RAM. -/
structure Room (b : Board) (address step n : Nat) : Prop where
  ram : ∀ k < n, b.isRam (b.ppuCell (address + k * step)) = true
  apart : ∀ i < n, ∀ j < n,
    b.ppuCell (address + i * step) = b.ppuCell (address + j * step) → i = j

/-- The address of a byte, counted from the one after the first. -/
theorem add_succ_mul (address step k : Nat) :
    address + (k + 1) * step = address + step + k * step := by
  rw [Nat.succ_mul, Nat.add_comm (k * step), Nat.add_assoc]

/-- A write does not change which cells are RAM. -/
theorem isRam_writePpu (b : Board) (address : Nat) (v : UInt8) :
    (b.writePpu address v).isRam = b.isRam :=
  b.isRam_use (.writePpu address v)

/-- Where there is room for a byte and more, there is room for the others once it has been
written. -/
theorem Room.next (h : b.Room address step (n + 1)) (v : UInt8) :
    (b.writePpu address v).Room (address + step) step n := by
  refine ⟨fun k hk => ?_, fun i hi j hj he => ?_⟩
  · rw [isRam_writePpu, ppuCell_writePpu, ← add_succ_mul]
    exact h.ram (k + 1) (Nat.succ_lt_succ hk)
  · rw [ppuCell_writePpu, ppuCell_writePpu, ← add_succ_mul, ← add_succ_mul] at he
    exact Nat.succ_injective (h.apart _ (Nat.succ_lt_succ hi) _ (Nat.succ_lt_succ hj) he)

/-- What has a cell of its own keeps its byte. -/
theorem readPpu_writePpuFrom_of_ne {bytes : List UInt8} {address' : Nat}
    (h : ∀ k < bytes.length, b.ppuCell (address + k * step) ≠ b.ppuCell address') :
    (b.writePpuFrom address step bytes).readPpu address' = b.readPpu address' := by
  induction bytes generalizing b address with
  | nil => rfl
  | cons v rest ih =>
    have h₀ : b.ppuCell address ≠ b.ppuCell address' := by
      simpa only [Nat.zero_mul, Nat.add_zero] using h 0 (Nat.zero_lt_succ _)
    rw [writePpuFrom, ih, readPpu_writePpu, if_neg fun hc => h₀ hc.1]
    intro k hk
    rw [ppuCell_writePpu, ppuCell_writePpu, ← add_succ_mul]
    exact h (k + 1) (Nat.succ_lt_succ hk)

/-- **Where there is room, bytes are kept.** -/
theorem readPpu_writePpuFrom {bytes : List UInt8} (h : b.Room address step bytes.length) {k : Nat}
    (hk : k < bytes.length) :
    (b.writePpuFrom address step bytes).readPpu (address + k * step) = bytes[k] := by
  induction bytes generalizing b address k with
  | nil => cases hk
  | cons v rest ih =>
    cases k with
    | zero =>
      have own : ∀ k < rest.length, (b.writePpu address v).ppuCell (address + step + k * step) ≠
          (b.writePpu address v).ppuCell address := by
        intro k hk he
        rw [ppuCell_writePpu, ppuCell_writePpu, ← add_succ_mul] at he
        refine Nat.succ_ne_zero k (h.apart _ (Nat.succ_lt_succ hk) 0 (Nat.zero_lt_succ _) ?_)
        rwa [Nat.zero_mul, Nat.add_zero]
      have ram : b.isRam (b.ppuCell address) = true := by
        simpa only [Nat.zero_mul, Nat.add_zero] using h.ram 0 (Nat.zero_lt_succ _)
      rw [writePpuFrom, Nat.zero_mul, Nat.add_zero, readPpu_writePpuFrom_of_ne own,
        readPpu_writePpu, if_pos ⟨rfl, ram⟩]
      rfl
    | succ k =>
      rw [writePpuFrom, add_succ_mul]
      exact ih (h.next v) (Nat.lt_of_succ_lt_succ hk)

/-- An address has 14 bits. -/
theorem readPpu_mod (b : Board) (address : Nat) :
    b.readPpu (address % 0x4000) = b.readPpu address := by
  unfold readPpu
  simp only [Nat.mod_mod]

/-- Of an address fourteen bits count. -/
theorem writePpu_mod (b : Board) (address : Nat) (v : UInt8) :
    b.writePpu (address % 0x4000) v = b.writePpu address v := by
  unfold writePpu
  simp only [Nat.mod_mod]

end Board

namespace Ppu

/-! ### Bytes through the port -/

/-- The address is written, in two halves. -/
def setAddress (p : Ppu) (board : Board) (address : Nat) : Ppu × Board :=
  let s := p.write board 6 (UInt8.ofNat (address / 256))
  s.1.write s.2 6 (UInt8.ofNat address)

/-- Bytes are written to memory, one after the other. -/
def writeBytes (p : Ppu) (board : Board) : List UInt8 → Ppu × Board
  | [] => (p, board)
  | v :: rest =>
    let s := p.write board 7 v
    s.1.writeBytes s.2 rest

/-- Bytes are read from memory, one after the other. -/
def readBytes (p : Ppu) (board : Board) : Nat → List UInt8 × Ppu
  | 0 => ([], p)
  | n + 1 =>
    let r := p.read board 7
    let rest := r.2.readBytes board n
    (r.1 :: rest.1, rest.2)

/-- Bytes are written to memory from an address on and read again from there.  The status is read
before, so that a half that has been written earlier does not count; the byte that is read first is
not one of them. -/
def writeThenRead (p : Ppu) (board : Board) (address : Nat) (bytes : List UInt8) :
    List UInt8 × Ppu :=
  let p := (p.read board 2).2
  let s := p.setAddress board address
  let s := s.1.writeBytes s.2 bytes
  let s := s.1.setAddress s.2 address
  let p := (s.1.read s.2 7).2
  p.readBytes s.2 bytes.length

variable {p : Ppu} {address n : Nat}

/-- The next access reaches the memory of the cartridge at an address. -/
structure Aims (p : Ppu) (address : Nat) : Prop where
  address_eq : p.address = address % 0x4000
  below : address % 0x4000 < 0x3F00

/-- Below the palette an address is one of the board. -/
theorem aims_of_below {step : Nat} (ha : p.address = address % 0x4000)
    (below : (address + 0 * step) % 0x4000 < 0x3F00) : p.Aims address :=
  ⟨ha, by rwa [Nat.zero_mul, Nat.add_zero] at below⟩

/-- The palette begins at `$3F00`. -/
theorem inPalette_of_lt {address : Nat} (h : address < 0x3F00) : inPalette address = false :=
  decide_eq_false (Nat.not_le.2 h)

/-- A write of a byte goes to the address. -/
theorem write_of_aims (h : p.Aims address) (board : Board) (v : UInt8) :
    p.write board 7 v = ({ p with latch := v }.advanceAddress, board.writePpu address v) := by
  have ha : Ppu.address { p with latch := v } = address % 0x4000 := h.address_eq
  rw [write, if_pos rfl, writeData]
  dsimp only
  rw [ha, inPalette_of_lt h.below, if_neg Bool.false_ne_true, Board.writePpu_mod]

/-- A read gives the byte of the buffer, and fetches one from the address. -/
theorem read_of_aims (h : p.Aims address) (board : Board) :
    p.read board 7 =
      (p.readBuffer, { p with readBuffer := board.readPpu address }.advanceAddress) := by
  rw [read, readData, h.address_eq, inPalette_of_lt h.below, if_neg Bool.false_ne_true,
    Board.readPpu_mod]

/-- A read through the port leaves the control register, and so the step. -/
theorem control_read_seven (p : Ppu) (board : Board) : (p.read board 7).2.control = p.control :=
  congrArg Standing.control (standing_read p board 7)

/-- Any access to memory moves the address on. -/
theorem scroll_read_seven (p : Ppu) (board : Board) :
    (p.read board 7).2.scroll = p.scroll.advance p.control.addressStep := by
  rw [read, readData]
  split <;> rfl

/-- A write through the port moves the address on by the step, -/
theorem scroll_write_seven (p : Ppu) (board : Board) (v : UInt8) :
    (p.write board 7 v).1.scroll = p.scroll.advance p.control.addressStep := by
  rw [write, if_pos rfl, writeData]
  split <;> rfl

/-- which is a step in memory, around its end. -/
theorem address_of_advance {p q : Ppu} {address step : Nat} (hs : q.scroll = p.scroll.advance step)
    (h : p.address = address % 0x4000) : q.address = (address + step) % 0x4000 := by
  unfold Ppu.address at h ⊢
  rw [hs, Scroll.advance]
  dsimp only
  omega

/-- Whatever is written, the raster and the registers stay. -/
theorem standing_writeBytes (p : Ppu) (board : Board) (bytes : List UInt8) :
    (p.writeBytes board bytes).1.standing = p.standing := by
  induction bytes generalizing p board with
  | nil => rfl
  | cons v rest ih => exact (ih _ _).trans (standing_write p board 7 v)

/-- **What is written goes to the board**, as long as it is not meant for palette memory. -/
theorem board_writeBytes (ha : p.address = address % 0x4000) {bytes : List UInt8}
    (below : ∀ k < bytes.length, (address + k * p.control.addressStep) % 0x4000 < 0x3F00)
    (board : Board) :
    (p.writeBytes board bytes).2 = board.writePpuFrom address p.control.addressStep bytes := by
  induction bytes generalizing p board address with
  | nil => rfl
  | cons v rest ih =>
    have aims := aims_of_below ha (below 0 (Nat.zero_lt_succ _))
    have hc : (p.write board 7 v).1.control = p.control :=
      congrArg Standing.control (standing_write p board 7 v)
    rw [writeBytes, Board.writePpuFrom, ← hc,
      ih (address_of_advance (scroll_write_seven p board v) ha), write_of_aims aims]
    · rfl
    · intro k hk
      rw [hc, ← Board.add_succ_mul]
      exact below (k + 1) (Nat.succ_lt_succ hk)

/-- **What is read comes one read late.** -/
theorem bytes_readBytes (ha : p.address = address % 0x4000)
    (below : ∀ k ≤ n, (address + k * p.control.addressStep) % 0x4000 < 0x3F00) (board : Board) :
    (p.readBytes board (n + 1)).1 = p.readBuffer ::
      (List.range n).map fun k => board.readPpu (address + k * p.control.addressStep) := by
  -- the induction is on the number of reads; the byte that comes is the one of the read before
  induction n generalizing p address with
  | zero =>
    have aims := aims_of_below ha (below 0 (Nat.le_refl 0))
    rw [readBytes, read_of_aims aims]
    rfl
  | succ n ih =>
    have aims := aims_of_below ha (below 0 (Nat.zero_le _))
    have hb : (p.read board 7).2.readBuffer = board.readPpu address := by
      rw [read_of_aims aims]
      rfl
    have next := ih (address_of_advance (scroll_read_seven p board) ha) fun k hk => by
      rw [control_read_seven, ← Board.add_succ_mul]
      exact below (k + 1) (Nat.succ_le_succ hk)
    rw [hb, control_read_seven] at next
    have shift : ((List.range n).map Nat.succ).map
        (fun k => board.readPpu (address + k * p.control.addressStep)) =
        (List.range n).map fun k => board.readPpu
          (address + p.control.addressStep + k * p.control.addressStep) := by
      rw [List.map_map]
      exact List.map_congr_left fun k _ => congrArg board.readPpu (Board.add_succ_mul ..)
    rw [List.range_succ_eq_map, List.map_cons, shift, Nat.zero_mul, Nat.add_zero, readBytes]
    dsimp only
    rw [next, read_of_aims aims]
    rfl

/-- Each byte that is read moves the address on. -/
theorem v_readBytes (p : Ppu) (board : Board) (n : Nat) :
    (p.readBytes board (n + 1)).2.scroll.v =
      (p.scroll.v + (n + 1) * p.control.addressStep) % 0x8000 := by
  induction n generalizing p with
  | zero =>
    rw [Nat.zero_add, Nat.one_mul]
    exact congrArg Scroll.v (scroll_read_seven p board)
  | succ n ih =>
    rw [readBytes]
    dsimp only
    rw [ih, scroll_read_seven, control_read_seven, Scroll.advance]
    dsimp only
    rw [Nat.mod_add_mod, ← Board.add_succ_mul]

/-- The picture unit once an address has been written. -/
def aimed (p : Ppu) (address : Nat) : Ppu :=
  { p with
    latch := UInt8.ofNat address
    scroll := { p.scroll with v := address % 0x4000, t := address % 0x4000 } }

/-- The address is the one that was aimed at. -/
theorem address_aimed (p : Ppu) (address : Nat) : (p.aimed address).address = address % 0x4000 :=
  Nat.mod_mod ..

/-- **The address is set** if the first half comes first. -/
theorem setAddress_of_toggle (ht : p.scroll.toggle = false) (board : Board) (address : Nat) :
    p.setAddress board address = (p.aimed address, board) := by
  have hc : p.scroll.clearToggle = p.scroll := by
    rw [Scroll.clearToggle, ← ht]
  have ha : (UInt8.ofNat (address / 256)).toNat % 64 * 256 + (UInt8.ofNat address).toNat =
      address % 0x4000 := by
    rw [UInt8.toNat_ofNat', UInt8.toNat_ofNat']
    omega
  have hs := p.scroll.writeAddress_writeAddress (UInt8.ofNat (address / 256)) (UInt8.ofNat address)
  rw [hc, ha, ← ht] at hs
  rw [setAddress, write, if_neg (by decide), write, if_neg (by decide), aimed, ← hs]
  rfl

/-- **The round trip.**  Where there is room for the bytes, and neither they nor the byte behind
them are meant for palette memory, what is read through the port is what has been written through
it, whatever state the picture unit is in; and the address has gone on by one more than there are
bytes. -/
theorem data_round_trip (p : Ppu) (board : Board) (address : Nat) (bytes : List UInt8)
    (room : board.Room address p.control.addressStep bytes.length)
    (below : ∀ k ≤ bytes.length, (address + k * p.control.addressStep) % 0x4000 < 0x3F00) :
    (p.writeThenRead board address bytes).1 = bytes ∧
      (p.writeThenRead board address bytes).2.scroll.v =
        (address % 0x4000 + (bytes.length + 1) * p.control.addressStep) % 0x8000 := by
  let q := (p.read board 2).2.aimed address
  let w := q.writeBytes board bytes
  have hw : w.1.standing = q.standing := standing_writeBytes q board bytes
  have hb : w.2 = board.writePpuFrom address p.control.addressStep bytes :=
    board_writeBytes (p := q) (address_aimed ..) (fun k hk => below k (Nat.le_of_lt hk)) board
  -- setting the address is two writes, which the toggle counts
  have hs : p.writeThenRead board address bytes =
      ((w.1.aimed address).read w.2 7).2.readBytes w.2 bytes.length := by
    have h₁ : (p.read board 2).2.setAddress board address = (q, board) :=
      setAddress_of_toggle rfl board address
    have h₂ : w.1.setAddress w.2 address = (w.1.aimed address, w.2) :=
      setAddress_of_toggle (congrArg Standing.toggle hw) w.2 address
    rw [writeThenRead, h₁, h₂]
  have hc : (w.1.aimed address).control = p.control := congrArg Standing.control hw
  have read := bytes_readBytes (address_aimed w.1 address) (by rwa [hc]) w.2
  have v := v_readBytes (w.1.aimed address) w.2 bytes.length
  rw [hc] at read v
  rw [hs]
  refine ⟨?_, v⟩
  refine (List.cons.inj read).2.trans (List.ext_getElem (by simp) fun k _ hk => ?_)
  rw [List.getElem_map, List.getElem_range, hb]
  exact Board.readPpu_writePpuFrom room hk

/-- Three bytes down a column of two tables that are one, after a half has been written that does
not count. -/
theorem data_round_trip_blank :
    let p : Ppu :=
      { control := ⟨0x04⟩
        scroll := { v := 0x3456, t := 0x7FFF, toggle := true }
        readBuffer := 0x99 }
    let bytes : List UInt8 := [0x11, 0x22, 0x33]
    Board.blank.Room 0x23E0 p.control.addressStep bytes.length ∧
      (p.writeThenRead .blank 0x23E0 bytes).1 = bytes ∧
      (p.writeThenRead .blank 0x23E0 bytes).2.scroll.v = 0x2460 := by
  intro p bytes
  have room : Board.blank.Room 0x23E0 p.control.addressStep bytes.length :=
    ⟨by decide, by decide⟩
  obtain ⟨hr, hv⟩ := data_round_trip p .blank 0x23E0 bytes room (by decide)
  exact ⟨room, hr, hv.trans (by decide)⟩

end Ppu
end Famicom
