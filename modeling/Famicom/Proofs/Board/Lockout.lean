/-
# For how long the serial board does not listen

After a complete group the serial board does not listen for three cycles.  `Board.SilentFor` is a
bound on what is left of them: a cycle uses one of them up, a write to program ROM brings them back
to three at the most, and nothing else that is done to a board reaches its registers
(`Board.Unmoved`).  While the board listens it takes whatever is written (`Mmc1.takes_write`).
-/

import Famicom.Proofs.Board.Blank

namespace Famicom

namespace Mmc1

/-- A write has reached the register in which the bits of a group are collected: they have been
thrown away, or they are one more, or the group is complete and has gone to the register that the
address chooses. -/
inductive Takes (m : Mmc1) (address : UInt16) (value : UInt8) : Mmc1 → Prop where
  | reset (h : (value &&& 0x80 != 0) = true) :
    Takes m address value { m with received := [], control := m.control ||| 0x0C }
  | bit (h : (value &&& 0x80 != 0) = false) (hl : m.received.length + 1 < groupSize) :
    Takes m address value { m with received := m.received ++ [value &&& 0x01 != 0] }
  | group (h : (value &&& 0x80 != 0) = false) (hl : groupSize ≤ m.received.length + 1) :
    Takes m address value
      { m.load (.ofAddress address)
        (UInt8.ofNat (bitsValue (m.received ++ [value &&& 0x01 != 0]))) with
        received := [], lockout := lockoutCycles }

/-- **A board that listens takes what is written.** -/
theorem takes_write {m : Mmc1} (h : m.lockout = 0) (address : UInt16) (value : UInt8) :
    m.Takes address value (m.write address value) := by
  have hl : (m.receive value).length = m.received.length + 1 := List.length_append
  unfold write
  rw [if_neg (by omega)]
  cases hv : value &&& 0x80 != 0 with
  | true => exact .reset hv
  | false =>
    rw [if_neg Bool.false_ne_true]
    by_cases hg : m.received.length + 1 < groupSize
    · rw [if_pos (by omega)]
      exact .bit hv hg
    · rw [if_neg (by omega)]
      exact .group hv (by omega)

/-- After a write the board does not listen for three cycles at the most, or as long as before. -/
theorem lockout_write_le {m : Mmc1} {n : Nat} (h : m.lockout ≤ n) (hn : lockoutCycles ≤ n)
    (address : UInt16) (value : UInt8) : (m.write address value).lockout ≤ n := by
  unfold write
  split
  · exact h
  · split
    · exact h
    · dsimp only
      split
      · exact h
      · exact hn

end Mmc1

namespace Board

/-- Nothing has been done to the registers of a board, nor to its kind. -/
structure Unmoved (b b' : Board) : Prop where
  number : b'.number = b.number
  wiring : b'.wiring = b.wiring

/-- A board that is left alone has not moved its registers, -/
theorem Unmoved.refl (b : Board) : Unmoved b b := ⟨rfl, rfl⟩

/-- and two accesses that leave them do so together. -/
theorem Unmoved.trans {b b' b'' : Board} (h : Unmoved b b') (k : Unmoved b' b'') : Unmoved b b'' :=
  ⟨k.number.trans h.number, k.wiring.trans h.wiring⟩

/-- A cycle passes alike on boards that have not moved against each other. -/
theorem Unmoved.tick {b b' : Board} (h : Unmoved b b') : Unmoved b.tick b'.tick := by
  obtain ⟨hn, hw⟩ := h
  unfold Board.tick
  rw [hw]
  split
  · split
    · exact ⟨hn, hw⟩
    · exact ⟨hn, rfl⟩
  · exact ⟨hn, hw⟩

/-- Writes of the picture unit do not reach them. -/
theorem unmoved_writePpu (b : Board) (address : Nat) (v : UInt8) :
    Unmoved b (b.writePpu address v) := by
  unfold writePpu
  dsimp only
  split
  · split <;> exact ⟨rfl, rfl⟩
  · exact ⟨rfl, rfl⟩

/-- The board after a write to program ROM. -/
def move (b : Board) (address : UInt16) (v : UInt8) : Board :=
  { b with wiring := b.wiring.write address v }

/-- A write of the processor to program ROM is one to the registers, -/
theorem writeCpu_of_le {address : UInt16} (h : 0x8000 ≤ address) (b : Board) (v : UInt8) :
    b.writeCpu address v = b.move address v := by
  have h₆ : ¬address < 0x6000 := UInt16.not_lt.2 (UInt16.le_trans (by decide) h)
  unfold writeCpu
  rw [if_neg h₆, if_neg (UInt16.not_lt.2 h)]
  rfl

/-- and one below it is not. -/
theorem unmoved_writeCpu {address : UInt16} (h : address < 0x8000) (b : Board) (v : UInt8) :
    Unmoved b (b.writeCpu address v) := by
  unfold writeCpu
  rw [if_pos h]
  split
  · exact .refl b
  · split
    · exact ⟨rfl, rfl⟩
    · exact .refl b

/-- If the header asks for the serial board it is one, and in so many cycles it listens again. -/
def SilentFor (n : Nat) (b : Board) : Prop :=
  b.number = 1 → ∃ m, b.wiring = .mmc1 m ∧ m.lockout ≤ n

namespace SilentFor

variable {n : Nat} {b b' : Board}

/-- A board that is silent for so long is so for longer. -/
theorem mono {k : Nat} (h : SilentFor n b) (hk : n ≤ k) : SilentFor k b := fun hb =>
  let ⟨m, hm, hl⟩ := h hb
  ⟨m, hm, Nat.le_trans hl hk⟩

/-- Silence is in the registers, so an access that leaves them leaves it. -/
theorem unmoved (h : SilentFor n b) (hu : Unmoved b b') : SilentFor n b' := by
  intro hb
  rw [hu.wiring]
  exact h (hu.number ▸ hb)

/-- In a cycle one of the cycles passes. -/
theorem tick (h : SilentFor n b) : SilentFor (n - 1) b.tick := by
  intro hb
  have hn : b.tick.number = b.number := by
    unfold Board.tick
    split
    · split <;> rfl
    · rfl
  obtain ⟨m, hm, hl⟩ := h (hn ▸ hb)
  unfold Board.tick
  rw [hm]
  dsimp only
  split
  · exact ⟨m, hm, by omega⟩
  · exact ⟨m.tick, rfl, by rw [Mmc1.lockout_tick]; omega⟩

/-- A write to program ROM brings back three cycles at the most. -/
theorem move (h : SilentFor n b) (hn : Mmc1.lockoutCycles ≤ n) (address : UInt16) (v : UInt8) :
    SilentFor n (b.move address v) := by
  intro hb
  obtain ⟨m, hm, hl⟩ := h hb
  refine ⟨m.write address v, ?_, Mmc1.lockout_write_le hl hn address v⟩
  rw [Board.move, hm]
  rfl

end SilentFor

/-- At power-on a board listens. -/
theorem silentFor_ofCartridge {cartridge : Cartridge} {b : Board}
    (h : ofCartridge cartridge = .ok b) (n : Nat) : SilentFor n b := by
  unfold ofCartridge at h
  split at h
  · cases h
  · rename_i wiring hw
    obtain rfl := Except.ok.inj h
    intro hb
    rw [show cartridge.header.board = 1 from hb] at hw
    obtain rfl := Option.some.inj hw
    exact ⟨{}, rfl, Nat.zero_le n⟩

/-- A blank board of the serial kind. -/
def blankSerial : Board := { blank with wiring := .mmc1 {}, number := 1 }

/-- The blank cartridge with board 1 gives this board. -/
theorem ofCartridge_blankSerial : ofCartridge (.blank 0x10) = .ok blankSerial := rfl

/-- Its program is all zeros. -/
theorem readCpu_blankSerial {address : UInt16} (h : 0x8000 ≤ address) :
    blankSerial.readCpu address = 0 :=
  readCpu_blank h _ _

end Board

end Famicom
