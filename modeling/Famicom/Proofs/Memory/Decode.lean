/-
# Which chip an address reaches

The address space is decoded in an order: memory, picture unit, sound unit and controller,
cartridge.  An access reaches one chip and leaves the others alone, and the lines that a chip does
not look at make no difference: `$0000`–`$1FFF` is 2 KB of memory over and over, `$2000`–`$3FFF`
the eight registers of the picture unit.  So whatever happens, an address can be replaced by the
first of those that mean the same (`Memory.canonical`), and nobody can tell
(`Memory.afterMoves_canonical`).

A byte for the delta modulation channel is a read like any other, and could reach a chip that minds
being read.  It does not, since in every address space that can be come to the channel reads
program ROM (`Memory.Reachable.fetchSample_eq`).
-/

import Famicom.Proofs.Apu.Pointers
import Famicom.Proofs.Board.Cells
import Famicom.Proofs.Memory.ProgramRom
import Famicom.Proofs.Memory.Sample

namespace Famicom

namespace Ppu

/-- Of the registers only the status and the memory register mind being read. -/
theorem read_of_ne {register : Nat} (h₂ : register ≠ 2) (h₇ : register ≠ 7) (p : Ppu)
    (board : Board) : (p.read board register).2 = p := by
  unfold read
  split
  · exact absurd rfl h₂
  · rfl
  · exact absurd rfl h₇
  · rfl

/-- Only through the memory register does a write reach the cartridge. -/
theorem board_write (p : Ppu) (board : Board) (register : Nat) (v : UInt8) :
    (p.write board register v).2 =
      if register = 7 ∧ inPalette p.address = false then board.writePpu p.address v else board := by
  unfold write writeData
  dsimp only
  by_cases h₇ : register = 7
  · have ha : ({ p with latch := v } : Ppu).address = p.address := rfl
    rw [if_pos h₇, ha]
    cases hp : inPalette p.address with
    | true => simp
    | false => simp [h₇]
  · simp [h₇]

end Ppu

namespace Memory

/-- The first of the addresses that mean the same as `address`. -/
def canonical (address : UInt16) : UInt16 :=
  if address < 0x2000 then address &&& 0x07FF
  else if address < 0x4000 then 0x2000 ||| (address &&& 0x0007)
  else address

/-! ### Aliases of an address -/

/-- Eleven bits of an address: its place in the internal RAM. -/
theorem toNat_and_07FF (address : UInt16) : (address &&& 0x07FF).toNat = address.toNat % 2048 := by
  rw [UInt16.toNat_and]
  exact Nat.and_two_pow_sub_one_eq_mod _ 11

/-- Three bits of an address: a register of the picture unit. -/
theorem toNat_or_and_0007 (address : UInt16) :
    (0x2000 ||| (address &&& 0x0007)).toNat = 0x2000 + address.toNat % 8 := by
  have hm : address.toNat &&& 7 = address.toNat % 8 := Nat.and_two_pow_sub_one_eq_mod _ 3
  have hlt : address.toNat % 8 < 2 ^ 13 := by omega
  rw [UInt16.toNat_or, UInt16.toNat_and]
  show 0x2000 ||| (address.toNat &&& 7) = _
  rw [hm]
  exact (Nat.two_pow_add_eq_or_of_lt hlt 1).symm

/-- Mirrors of the internal RAM and of a register, and an address of the cartridge. -/
example : canonical 0x1FFF = 0x07FF ∧ canonical 0x3FFE = 0x2006 ∧ canonical 0x8000 = 0x8000 := by
  decide

/-- What an address and the first of those that mean the same have in common. -/
theorem canonical_cases (address : UInt16) :
    (address < 0x2000 ∧ canonical address < 0x2000 ∧
      (canonical address).toNat % 2048 = address.toNat % 2048) ∨
    (reachesPpu address = true ∧ reachesPpu (canonical address) = true ∧
      ppuRegister (canonical address) = ppuRegister address) ∨
    canonical address = address := by
  unfold canonical
  split
  · rename_i h
    have hc := toNat_and_07FF address
    refine .inl ⟨h, ?_, ?_⟩
    · rw [UInt16.lt_iff_toNat_lt, hc]
      show address.toNat % 2048 < 0x2000
      omega
    · rw [hc, Nat.mod_mod]
  · -- not in the RAM: a register of the picture unit, or an address that is its own
    split
    · have hc := toNat_or_and_0007 address
      refine .inr (.inl ⟨by grind [reachesPpu], ?_, ?_⟩)
      · rw [reachesPpu, Bool.and_eq_true, decide_eq_true_eq, decide_eq_true_eq,
          UInt16.le_iff_toNat_le, UInt16.lt_iff_toNat_lt, hc]
        exact ⟨Nat.le_add_right _ _, show 0x2000 + address.toNat % 8 < 0x4000 by omega⟩
      · unfold ppuRegister
        omega
    · exact .inr (.inr rfl)

/-- A read of a register of the picture unit, wherever in its 8 KiB it is made. -/
theorem read_of_reachesPpu {address : UInt16} (h : reachesPpu address = true) (m : Memory) :
    m.read address =
      ((m.ppu.read m.board (ppuRegister address)).1,
        { m with ppu := (m.ppu.read m.board (ppuRegister address)).2 }) := by
  rw [reachesPpu, Bool.and_eq_true, decide_eq_true_eq, decide_eq_true_eq] at h
  unfold read
  rw [if_neg (UInt16.not_lt.2 h.1), if_pos h.2]

/-- **An address that means the same reads the same**, and leaves the same. -/
theorem read_canonical (m : Memory) (address : UInt16) :
    m.read (canonical address) = m.read address := by
  obtain ⟨h, hc, he⟩ | ⟨h, hc, he⟩ | he := canonical_cases address
  · unfold read
    rw [if_pos h, if_pos hc]
    simp only [he]
  · rw [read_of_reachesPpu h, read_of_reachesPpu hc, he]
  · rw [he]

/-- **At an address that means the same the same is written.** -/
theorem write_canonical (m : Memory) (address : UInt16) (v : UInt8) :
    m.write (canonical address) v = m.write address v := by
  obtain ⟨h, hc, he⟩ | ⟨h, hc, he⟩ | he := canonical_cases address
  · unfold write
    rw [if_pos h, if_pos hc]
    simp only [he]
  · rw [reachesPpu, Bool.and_eq_true, decide_eq_true_eq, decide_eq_true_eq] at h hc
    unfold write
    rw [if_neg (UInt16.not_lt.2 h.1), if_neg (UInt16.not_lt.2 hc.1), if_pos h.2, if_pos hc.2, he]
  · rw [he]

/-- The same with the first of the addresses that mean the same. -/
def Move.canonical : Move → Move
  | read address => read (Memory.canonical address)
  | write address v => write (Memory.canonical address) v
  | x => x

/-- The byte that is read, if one is. -/
def answer? (m : Memory) : Move → Option UInt8
  | .read address => some (m.read address).1
  | _ => none

/-- The bytes that are read in turn. -/
def answers (m : Memory) : List Move → List UInt8
  | [] => []
  | x :: rest => (m.answer? x).toList ++ (m.move x).answers rest

/-- A move at the canonical address does the same and is answered the same. -/
theorem move_canonical (m : Memory) (x : Move) :
    m.move x.canonical = m.move x ∧ m.answer? x.canonical = m.answer? x := by
  cases x with
  | read address =>
    have h := m.read_canonical address
    exact ⟨congrArg (·.2) h, congrArg (fun r : UInt8 × Memory => some r.1) h⟩
  | write address v => exact ⟨m.write_canonical address v, rfl⟩
  | tickPpu | takeNmi | tickApu | tickBoard | takeStall | hold | clearFrameReady | clearSamples =>
    exact ⟨rfl, rfl⟩

/-- **Nobody can tell** which of the addresses that mean the same have been used. -/
theorem afterMoves_canonical (m : Memory) (moves : List Move) :
    m.afterMoves (moves.map Move.canonical) = m.afterMoves moves ∧
      m.answers (moves.map Move.canonical) = m.answers moves := by
  induction moves generalizing m with
  | nil => exact ⟨rfl, rfl⟩
  | cons x rest ih =>
    obtain ⟨hm, ha⟩ := m.move_canonical x
    obtain ⟨ihm, iha⟩ := ih (m.move x)
    rw [List.map_cons, answers, answers, hm, ha, iha]
    refine ⟨?_, rfl⟩
    show (m.move x.canonical).afterMoves _ = (m.move x).afterMoves _
    rw [hm, ihm]

/-! ### States that can be reached

The fetch of the sample player reads memory as well.  In a state that can be reached its address is
in program ROM, so that it touches no register. -/

/-- The address spaces that can be come to.  The sound unit can be used directly, too. -/
inductive Reachable : Memory → Prop where
  | ofBoard (board : Board) (rate : Nat) : Reachable (.ofBoard board rate)
  | reset {m : Memory} (h : Reachable m) : Reachable m.reset
  | move {m : Memory} (x : Move) (h : Reachable m) : Reachable (m.move x)
  | useApu {m : Memory} (x : Apu.Use) (h : Reachable m) : Reachable { m with apu := m.apu.use x }

variable {m : Memory}

/-- Whatever the processor does with it, it can be come to. -/
theorem Reachable.path (h : m.Reachable) {k : Memory} {writes : List (UInt16 × UInt8)}
    (hp : Bus.Path m writes k) : k.Reachable := by
  refine hp.preserves (P := Reachable) ?_ ?_ h
  · intro m address hm
    exact hm.move (.read address)
  · intro m address v hm
    exact hm.move (.write address v)

/-- To the sound unit a read is nothing, or a read of its status. -/
theorem reachable_apu_read (h : m.apu.Reachable) (address : UInt16) :
    (m.read address).2.apu.Reachable := by
  rw [read_eq]
  dsimp only
  split
  · exact h.use .readStatus
  · exact h

/-- A copy to the object memory reads, and a read of `0x4015` is a use of the sound unit. -/
theorem reachable_apu_copyToOam (h : m.apu.Reachable) (addresses : List UInt16) :
    (m.copyToOam addresses).apu.Reachable :=
  copyToOam_preserves (P := fun k => k.apu.Reachable)
    (fun _ address hk => reachable_apu_read hk address)
    (fun _ _ hk => hk) h addresses

/-- A write is at most one use of the sound unit. -/
theorem reachable_apu_write (h : m.apu.Reachable) (address : UInt16) (v : UInt8) :
    (m.write address v).apu.Reachable := by
  by_cases ha : address = 0x4014
  · rw [ha, write_oamDma]
    exact reachable_apu_copyToOam h (pageAddresses v)
  · rw [write_eq ha]
    dsimp only
    split
    · exact h.use (.write address v)
    · exact h

/-- A cycle of the sound unit, and the byte that it may ask for. -/
theorem reachable_apu_tickApu (h : m.apu.Reachable) : m.tickApu.apu.Reachable := by
  have ht : ({ m with apu := m.apu.tick } : Memory).apu.Reachable := h.use .tick
  unfold tickApu fetchSample
  split
  · exact ht
  · exact (reachable_apu_read ht _).use (.fill _)

/-- **The sound unit of an address space that can be come to** can be come to. -/
theorem Reachable.apu (h : m.Reachable) : m.apu.Reachable := by
  induction h with
  | ofBoard board rate => exact .ofRate rate
  | reset _ _ => exact Apu.reachable_reset _
  | @move m x _ ih =>
    cases x with
    | tickApu => exact reachable_apu_tickApu ih
    | read address => exact reachable_apu_read ih address
    | write address v => exact reachable_apu_write ih address v
    | takeNmi =>
      show m.takeNmi.2.apu.Reachable
      unfold takeNmi
      split <;> exact ih
    | takeStall =>
      show m.takeStall.2.apu.Reachable
      unfold takeStall
      split <;> exact ih
    | clearSamples => exact ih.use .clearSamples
    | tickPpu | tickBoard | hold | clearFrameReady => exact ih
  | useApu x _ ih => exact ih.use x

/-- **What a byte for the delta modulation channel changes**: the channel, and what has been stolen
from the processor. -/
theorem Reachable.fetchSample_eq (h : m.Reachable) :
    m.fetchSample =
      if m.apu.dmc.fetchAddress?.isSome then
        { m with
          apu := { m.apu with dmc := m.apu.dmc.fill (m.board.readCpu m.apu.dmc.address) }
          pendingStall := m.pendingStall + sampleFetchCycles }
      else m := by
  have hr : 0x8000 ≤ m.apu.dmc.address := h.apu.inRom.address
  unfold fetchSample
  obtain ⟨hf, -⟩ | ⟨hf, -⟩ := m.apu.dmc.fetchAddress?_cases
  · rw [hf]
    rfl
  · rw [hf]
    dsimp only
    rw [read_of_le hr]
    rfl

/-- **What an access reaches.**  A read changes nothing but the picture unit, if it reaches the
status or the memory register, the sound unit at `$4015`, and the controller at `$4016`.  A write
that does not start a transfer to object memory changes nothing but the chip that owns the address;
and of the cartridge the picture unit changes the character RAM and the nametable memory, through
its memory register.

Whatever happens, every address can be replaced by the first of those that mean the same: the same
bytes are read, and the same is left.

In every address space that can be come to the delta modulation channel reads program ROM, so that
a byte for it changes nothing but the channel and the cycles that are owed for it. -/
theorem accesses_are_isolated (m : Memory) :
    (∀ address, (m.read address).2 =
      { m with
        ppu := if reachesPpu address ∧ (ppuRegister address = 2 ∨ ppuRegister address = 7)
          then (m.ppu.read m.board (ppuRegister address)).2 else m.ppu
        apu := if address = 0x4015 then m.apu.readStatus.2 else m.apu
        pad := if address = 0x4016 then m.pad.read.2 else m.pad }) ∧
    (∀ address v, address ≠ 0x4014 → m.write address v =
      { m with
        ram := if address < 0x2000
          then m.ram.set (address.toNat % 2048) v (Nat.mod_lt _ (Nat.zero_lt_succ _)) else m.ram
        ppu := if reachesPpu address then (m.ppu.write m.board (ppuRegister address) v).1 else m.ppu
        apu := if 0x4000 ≤ address ∧ address < 0x4018 ∧ address ≠ 0x4016
          then m.apu.write address v else m.apu
        pad := if address = 0x4016 then m.pad.write v else m.pad
        board :=
          if reachesPpu address ∧ ppuRegister address = 7 ∧ Ppu.inPalette m.ppu.address = false then
            m.board.writePpu m.ppu.address v
          else if 0x4020 ≤ address then m.board.writeCpu address v
          else m.board }) ∧
    (∀ address v, ∃ chr nametables,
      m.board.writePpu address v = { m.board with chr, nametables } ∧
        (m.board.chrIsRam = false → chr = m.board.chr)) ∧
    (∀ moves, m.afterMoves (moves.map Move.canonical) = m.afterMoves moves ∧
      m.answers (moves.map Move.canonical) = m.answers moves) ∧
    (m.Reachable → 0x8000 ≤ m.apu.dmc.address ∧
      m.fetchSample =
        if m.apu.dmc.fetchAddress?.isSome then
          { m with
            apu := { m.apu with dmc := m.apu.dmc.fill (m.board.readCpu m.apu.dmc.address) }
            pendingStall := m.pendingStall + sampleFetchCycles }
        else m) := by
  refine ⟨?_, ?_, ?_, m.afterMoves_canonical, fun h => ⟨h.apu.inRom.address, h.fetchSample_eq⟩⟩
  · intro address
    rw [read_eq]
    by_cases hr : ppuRegister address = 2 ∨ ppuRegister address = 7
    · simp only [hr, and_true]
    · obtain ⟨h₂, h₇⟩ := not_or.1 hr
      rw [Ppu.read_of_ne h₂ h₇, ite_self, ite_self]
  · intro address v h
    rw [write_eq h, Ppu.board_write]
    congr 1
    · by_cases hc : address = 0x4016
      · rw [hc]
        rfl
      · simp only [ne_eq, hc, not_false_eq_true, and_true]
    · -- the board is written through the data port or directly, and no address does both
      grind [reachesPpu]
  · intro address v
    obtain ⟨chr, nametables, h, -, hr⟩ := m.board.writePpu_eq address v
    exact ⟨chr, nametables, h, hr⟩

/-- Around a blank board with character ROM: a byte is written to the second cell of memory through
one of its other addresses, and one to the cartridge by the picture unit. -/
theorem accesses_are_isolated_blank :
    let m : Memory := .ofBoard { Board.blank with chrIsRam := false } Apu.defaultRate
    (0x0801 : UInt16) ≠ 0x4014 ∧ m.board.chrIsRam = false ∧ m.Reachable ∧
      (m.write 0x0801 0x55).ram = m.ram.set 1 0x55 ∧ (m.write 0x0801 0x55).board = m.board ∧
      (m.board.writePpu 0x0000 0x55).chr = m.board.chr ∧ m.fetchSample = m := by
  intro m
  have hm : m.Reachable := .ofBoard _ _
  obtain ⟨-, hw, hb, -, hf⟩ := accesses_are_isolated m
  obtain ⟨chr, nametables, he, hc⟩ := hb 0x0000 0x55
  refine ⟨by decide, rfl, hm, ?_, ?_, ?_, ?_⟩
  · rw [hw 0x0801 0x55 (by decide)]
    rfl
  · rw [hw 0x0801 0x55 (by decide)]
    rfl
  · rw [he]
    exact hc rfl
  · rw [(hf hm).2]
    rfl

end Memory
end Famicom
