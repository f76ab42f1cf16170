/-
# What is written to program ROM

The registers of a board stand behind the addresses of its program ROM.  Only a write there moves
them: a read reaches no board, and a write to anything else no register (`Memory.unmoved_write`).
What the processor does in its turn is such a write at most once, so the record of a turn says how
the board has moved in it (`Memory.moved_storePath`).
-/

import Famicom.Proofs.Board.Lockout
import Famicom.Proofs.Bus.Recording
import Famicom.Proofs.Memory.Access

namespace Famicom

open Bus (Access Recorded)

namespace Memory

open Board (Unmoved SilentFor)

/-- No read reaches the board. -/
theorem board_read (m : Memory) (address : UInt16) : (m.read address).2.board = m.board := by
  rw [read_eq]

/-- A copy to the object memory leaves the cartridge: it reads there, but does not write. -/
theorem board_copyToOam (m : Memory) (addresses : List UInt16) :
    (m.copyToOam addresses).board = m.board :=
  copyToOam_preserves (P := fun k => k.board = m.board)
    (fun k address h => (k.board_read address).trans h)
    (fun _ _ h => h) rfl addresses

/-- The byte that the delta modulation channel wants is only read. -/
theorem board_tickApu (m : Memory) : m.tickApu.board = m.board := by
  unfold tickApu fetchSample
  dsimp only
  split
  · rfl
  · exact board_read { m with apu := m.apu.tick } _

/-- Taking a request leaves the cartridge. -/
theorem board_takeNmi (m : Memory) : m.takeNmi.2.board = m.board := by
  unfold takeNmi
  split <;> rfl

/-- Taking the stolen cycles leaves the cartridge. -/
theorem board_takeStall (m : Memory) : m.takeStall.2.board = m.board := by
  unfold takeStall
  split <;> rfl

/-- An address of program ROM lies below none of the bounds of the other chips. -/
theorem not_lt_of_le {address k : UInt16} (h : 0x8000 ≤ address) (hk : k ≤ 0x8000) : ¬address < k :=
  UInt16.not_lt.2 (UInt16.le_trans hk h)

/-- Program ROM is read from the board. -/
theorem read_of_le {address : UInt16} (h : 0x8000 ≤ address) (m : Memory) :
    m.read address = (m.board.readCpu address, m) := by
  unfold read
  rw [if_neg (not_lt_of_le h (by decide)), if_neg (not_lt_of_le h (by decide)),
    if_neg (not_lt_of_le h (by decide))]

/-- A write to program ROM moves the board. -/
theorem board_write_of_le {address : UInt16} (h : 0x8000 ≤ address) (m : Memory) (v : UInt8) :
    (m.write address v).board = m.board.move address v := by
  have ha : address ≠ 0x4014 ∧ reachesPpu address = false ∧ 0x4020 ≤ address := by
    grind [reachesPpu]
  rw [write_eq ha.1, ha.2.1, if_neg Bool.false_ne_true, if_pos ha.2.2]
  exact Board.writeCpu_of_le h m.board v

/-- A write to anything else does not. -/
theorem unmoved_write {address : UInt16} (h : address < 0x8000) (m : Memory) (v : UInt8) :
    Unmoved m.board (m.write address v).board := by
  by_cases ha : address = 0x4014
  · show Unmoved m.board (m.write address v).board
    rw [ha, write_oamDma, oamDma, board_copyToOam]
    exact .refl _
  · rw [write_eq ha]
    dsimp only
    split
    · unfold Ppu.write Ppu.writeData
      dsimp only
      split
      · split
        · exact .refl _
        · exact Board.unmoved_writePpu ..
      · exact .refl _
    · split
      · exact Board.unmoved_writeCpu h m.board v
      · exact .refl _

/-- The stack is not in program ROM. -/
theorem lt_of_inStackPage {address : UInt16} (h : Bus.inStackPage address = true) :
    address < 0x8000 :=
  UInt16.lt_trans (Bus.lt_of_inStackPage h) (by decide)

/-- No access keeps the board from listening for longer than three cycles. -/
theorem silentFor_write {n : Nat} {m : Memory} (h : m.board.SilentFor n)
    (hn : Mmc1.lockoutCycles ≤ n) (address : UInt16) (v : UInt8) :
    (m.write address v).board.SilentFor n := by
  by_cases ha : address < 0x8000
  · exact h.unmoved (unmoved_write ha m v)
  · rw [board_write_of_le (UInt16.not_lt.1 ha)]
    exact h.move hn address v

/-- **Accesses of any number and kind** leave the board silent for no longer than it was, or than a
store makes it. -/
theorem silentFor_path {n : Nat} {m m' : Memory} {writes : List (UInt16 × UInt8)}
    (hp : Bus.Path m writes m') (h : m.board.SilentFor n) (hn : Mmc1.lockoutCycles ≤ n) :
    m'.board.SilentFor n := by
  refine hp.preserves (P := fun m => m.board.SilentFor n) ?_ ?_ h
  · intro m address hm
    show (m.read address).2.board.SilentFor n
    rwa [board_read]
  · intro m address v hm
    exact silentFor_write hm hn address v

/-- Entering an interrupt does not move the board. -/
theorem unmoved_stackPath {m m' : Memory} (h : Cpu.StackPath m m') : Unmoved m.board m'.board := by
  obtain ⟨writes, h, hn⟩ := h
  refine h.preserves_of_offStack (P := fun k => Unmoved m.board k.board) ?_ ?_ hn (.refl _)
  · intro k address hk
    show Unmoved m.board (k.read address).2.board
    rwa [board_read]
  · intro k address v ha hk
    exact hk.trans (unmoved_write (lt_of_inStackPage ha) k v)

end Memory

/-- What an access writes to program ROM, if it does. -/
def Bus.Access.toRom? : Access → Option (UInt16 × UInt8)
  | .read .. => none
  | .write address v => if 0x8000 ≤ address then some (address, v) else none

/-- From `0x8000` on a write goes to program ROM, where the board takes it for an order. -/
theorem Bus.Access.toRom?_of_le {address : UInt16} (h : 0x8000 ≤ address) (v : UInt8) :
    (Access.write address v).toRom? = some (address, v) :=
  if_pos h

/-- Below it a write goes elsewhere. -/
theorem Bus.Access.toRom?_of_lt {address : UInt16} (h : address < 0x8000) (v : UInt8) :
    (Access.write address v).toRom? = none :=
  if_neg (UInt16.not_le.2 h)

namespace Memory

open Board (Unmoved)

/-- What is written to program ROM in a list of accesses. -/
def romWrites (accesses : List Access) : List (UInt16 × UInt8) := accesses.filterMap Access.toRom?

/-- Nothing has been written to program ROM, and the board has not moved. -/
structure Quiet (r r' : Recorded Memory) : Prop where
  writes : romWrites r'.accesses = romWrites r.accesses
  board : Unmoved r.bus.board r'.bus.board

/-- The orders in a list of accesses are its writes from `0x8000` on. -/
theorem mem_romWrites {accesses : List Access} {address : UInt16} {v : UInt8} :
    (address, v) ∈ romWrites accesses ↔ .write address v ∈ accesses ∧ 0x8000 ≤ address := by
  constructor
  · intro h
    obtain ⟨x, hx, he⟩ := List.mem_filterMap.1 h
    cases x with
    | read => cases he
    | write a w =>
      by_cases ha : 0x8000 ≤ a
      · rw [Access.toRom?_of_le ha] at he
        cases he
        exact ⟨hx, ha⟩
      · rw [Access.toRom?_of_lt (UInt16.not_le.1 ha)] at he
        cases he
  · rintro ⟨h, ha⟩
    exact List.mem_filterMap.2 ⟨_, h, Access.toRom?_of_le ha v⟩

variable {r r' : Recorded Memory}

/-- A read gives the board no order. -/
theorem quiet_read (r : Recorded Memory) (address : UInt16) : Quiet r (Bus.read r address).2 := by
  refine ⟨rfl, ?_⟩
  show Unmoved r.bus.board (r.bus.read address).2.board
  rw [board_read]
  exact .refl _

/-- A write below program ROM gives no order. -/
theorem quiet_write {address : UInt16} (h : address < 0x8000) (r : Recorded Memory) (v : UInt8) :
    Quiet r (Bus.write r address v) :=
  ⟨List.filterMap_cons_none (Access.toRom?_of_lt h v), unmoved_write h r.bus v⟩

/-- Neither does a write on the stack. -/
theorem quiet_push {address : UInt16} (h : Bus.inStackPage address = true) (r : Recorded Memory)
    (v : UInt8) : Quiet r (Bus.write r address v) :=
  quiet_write (lt_of_inStackPage h) r v

/-- What has been written to program ROM since a record was begun: nothing, and the board has not
moved; or one byte, and it has moved by this. -/
def Moved (b : Board) (r : Recorded Memory) : Prop :=
  (romWrites r.accesses = [] ∧ Unmoved b r.bus.board) ∨
    ∃ address v, romWrites r.accesses = [(address, v)] ∧ Unmoved (b.move address v) r.bus.board

/-- After an order, accesses that give none change nothing more. -/
theorem Moved.quiet {b : Board} (h : Moved b r) (hq : Quiet r r') : Moved b r' := by
  obtain ⟨hw, hu⟩ | ⟨address, v, hw, hu⟩ := h
  · exact .inl ⟨hq.writes.trans hw, hu.trans hq.board⟩
  · exact .inr ⟨address, v, hq.writes.trans hw, hu.trans hq.board⟩

/-- **The processor writes to program ROM once in its turn, if it does.** -/
theorem moved_storePath (h : Cpu.StorePath r r') (hr : r.accesses = []) : Moved r.bus.board r' := by
  obtain ⟨writes, h, hn⟩ := h
  -- before the one write off the stack the board is unmoved; with it there may be one order
  refine h.preserves_once
    (P := fun k => romWrites k.accesses = [] ∧ Unmoved r.bus.board k.bus.board)
    (fun k => .inl) ?_ ?_ ?_ ?_ ?_ hn ⟨by rw [hr]; rfl, .refl _⟩
  · intro k address ⟨hw, hu⟩
    have hq := quiet_read k address
    exact ⟨hq.writes.trans hw, hu.trans hq.board⟩
  · intro k address hk
    exact hk.quiet (quiet_read k address)
  · intro k address v ha ⟨hw, hu⟩
    have hq := quiet_push ha k v
    exact ⟨hq.writes.trans hw, hu.trans hq.board⟩
  · intro k address v ha hk
    exact hk.quiet (quiet_push ha k v)
  · intro k address v hk
    by_cases ha : address < 0x8000
    · exact Moved.quiet (.inl hk) (quiet_write ha k v)
    · obtain ⟨hw, hu⟩ := hk
      have ha := UInt16.not_lt.1 ha
      refine .inr ⟨address, v, ?_, ?_⟩
      · show romWrites (.write address v :: k.accesses) = _
        rw [romWrites, List.filterMap_cons_some (Access.toRom?_of_le ha v)]
        exact congrArg _ hw
      · show Unmoved _ (k.bus.write address v).board
        rw [board_write_of_le ha]
        exact ⟨hu.number, congrArg (·.write address v) hu.wiring⟩

end Memory
end Famicom
