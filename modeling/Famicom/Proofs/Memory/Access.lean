/-
# What an access does to the chips

An access of the processor reaches one chip.  To the picture unit a read can do no more than take
the flag of the vertical blank, so after any number of reads, those of a transfer to object memory
included, its standing is the old one or the old one with the flag taken (`Standing.Seen`).  In the
sound unit a read reaches nothing but the sequencer's request (`Memory.Spared`), and the count of
cycles is out of reach for every access.
-/

import Famicom.Memory.Basic
import Famicom.Proofs.Apu.Beats
import Famicom.Proofs.Bus.Path
import Famicom.Proofs.Ppu.Standing

namespace Famicom

namespace Ppu.Standing

/-- A standing after reads: at most the flag of the vertical blank has been taken. -/
def Seen (s t : Standing) : Prop := t = s ∨ t = s.read 2

/-- A standing that is left alone can be seen from itself. -/
theorem Seen.refl (s : Standing) : Seen s s := .inl rfl

/-- Looking at the status twice leaves what looking at it once leaves. -/
theorem Seen.trans {s t u : Standing} (h : Seen s t) (k : Seen t u) : Seen s u := by
  rcases h with rfl | rfl
  · exact k
  · rcases k with rfl | rfl
    · exact .inr rfl
    · exact .inr rfl

/-- Of the registers only the status changes anything in being read. -/
theorem seen_read (s : Standing) (register : Nat) : Seen s (s.read register) := by
  by_cases h : register = 2
  · exact .inr (by rw [h])
  · exact .inl (by rw [read, if_neg h])

/-- Being read does not move the raster. -/
theorem Seen.raster {s t : Standing} (h : Seen s t) : t.raster = s.raster := by
  rcases h with rfl | rfl <;> rfl

/-- Being read does not change what the processor has set. -/
theorem Seen.control {s t : Standing} (h : Seen s t) : t.control = s.control := by
  rcases h with rfl | rfl <;> rfl

/-- Being read does not change what is shown. -/
theorem Seen.mask {s t : Standing} (h : Seen s t) : t.mask = s.mask := by
  rcases h with rfl | rfl <;> rfl

/-- Being read does not complete a frame. -/
theorem Seen.frameReady {s t : Standing} (h : Seen s t) : t.frameReady = s.frameReady := by
  rcases h with rfl | rfl <;> rfl

/-- Being read makes no request and takes none. -/
theorem Seen.nmiPending {s t : Standing} (h : Seen s t) : t.nmiPending = s.nmiPending := by
  rcases h with rfl | rfl <;> rfl

/-- A vertical blank that is up after a read was up before it: reads only lower it. -/
theorem Seen.vblank {s t : Standing} (h : Seen s t) (ht : t.vblank = true) : s.vblank = true := by
  rcases h with rfl | rfl
  · exact ht
  · exact absurd ht Bool.false_ne_true

end Ppu.Standing

namespace Apu

/-- What the channels hear is no cycle. -/
theorem cycles_hear (a : Apu) (beat : Beat) : (a.hear beat).cycles = a.cycles := by
  cases beat <;> rfl

/-- The timers go on by one cycle. -/
theorem cycles_clockTimers (a : Apu) : a.clockTimers.cycles = a.cycles + 1 := by
  rw [clockTimers_eq]

/-- A cycle of the sound unit counts. -/
theorem cycles_tick (a : Apu) : a.tick.cycles = a.cycles + 1 := by
  rw [← cycles_clockTimers]
  exact cycles_hear _ _

/-- A write to the sound unit does not count. -/
theorem cycles_write (a : Apu) (address : UInt16) (v : UInt8) :
    (a.write address v).cycles = a.cycles := by
  unfold write
  split
  case h_20 => exact cycles_hear _ _
  all_goals rfl

end Apu

namespace Memory

open Ppu (Standing)

/-- Whether an address belongs to the picture unit. -/
def reachesPpu (address : UInt16) : Bool := 0x2000 ≤ address && address < 0x4000

/-- **What a read does, chip by chip.**  It takes from the chip that the address reaches, and from
no other. -/
theorem read_eq (m : Memory) (address : UInt16) : (m.read address).2 =
    { m with
      ppu := if reachesPpu address then (m.ppu.read m.board (ppuRegister address)).2 else m.ppu
      apu := if address = 0x4015 then m.apu.readStatus.2 else m.apu
      pad := if address = 0x4016 then m.pad.read.2 else m.pad } := by
  obtain ⟨⟩ := m
  unfold read reachesPpu
  split
  · grind
  · split
    · grind
    · split
      · split <;> grind
      · grind

/-- **What a write does, chip by chip**, unless it starts a transfer to object memory.  Only the
memory register of the picture unit reaches the cartridge behind its back. -/
theorem write_eq {address : UInt16} (h : address ≠ 0x4014) (m : Memory) (v : UInt8) :
    m.write address v =
      { m with
        ram := if address < 0x2000
          then m.ram.set (address.toNat % 2048) v (Nat.mod_lt _ (Nat.zero_lt_succ _)) else m.ram
        ppu := if reachesPpu address then (m.ppu.write m.board (ppuRegister address) v).1 else m.ppu
        apu := if 0x4000 ≤ address ∧ address < 0x4018 then m.apu.write address v else m.apu
        pad := if address = 0x4016 then m.pad.write v else m.pad
        board := if reachesPpu address then (m.ppu.write m.board (ppuRegister address) v).2
          else if 0x4020 ≤ address then m.board.writeCpu address v else m.board } := by
  obtain ⟨⟩ := m
  unfold write reachesPpu
  split
  · grind
  · split
    · grind
    · split
      · split
        · exact absurd rfl h
        · -- the register of the controller is none of the sound unit's
          grind [Apu.write]
        · grind
      · split <;> grind

/-- A write to `0x4014` copies a page to the object memory. -/
theorem write_oamDma (m : Memory) (v : UInt8) : m.write 0x4014 v = m.oamDma v := rfl

/-- **A read takes at most the flag of the vertical blank.** -/
theorem seen_read (m : Memory) (address : UInt16) :
    m.ppu.standing.Seen (m.read address).2.ppu.standing := by
  rw [read_eq]
  cases reachesPpu address with
  | true =>
    rw [if_pos rfl, Ppu.standing_read]
    exact Ppu.Standing.seen_read _ _
  | false => exact .refl _

/-- What lasts through reads and through writes to object memory lasts through a transfer. -/
theorem copyToOam_preserves {P : Memory → Prop} (read : ∀ k address, P k → P (k.read address).2)
    (put : ∀ k v, P k → P { k with ppu := k.ppu.writeOam v }) {m : Memory} (h : P m)
    (addresses : List UInt16) : P (m.copyToOam addresses) := by
  induction addresses generalizing m with
  | nil => exact h
  | cons address rest ih => exact ih (put _ _ (read m address h))

/-- The copy reads, perhaps the status, and stores; neither moves the raster or makes a request. -/
theorem seen_copyToOam (m : Memory) (addresses : List UInt16) :
    m.ppu.standing.Seen (m.copyToOam addresses).ppu.standing :=
  copyToOam_preserves (P := fun k => m.ppu.standing.Seen k.ppu.standing)
    (fun k address h => h.trans (seen_read k address)) (fun _ _ h => h) (.refl _) addresses

/-- So a transfer can be seen as reads of the status alone. -/
theorem seen_oamDma (m : Memory) (page : UInt8) :
    m.ppu.standing.Seen (m.oamDma page).ppu.standing :=
  seen_copyToOam m (pageAddresses page)

/-- The byte that the delta modulation channel wants is read like any other. -/
theorem seen_tickApu (m : Memory) : m.ppu.standing.Seen m.tickApu.ppu.standing := by
  unfold tickApu fetchSample
  dsimp only
  split
  · exact .refl _
  · exact seen_read { m with apu := m.apu.tick } _

/-- The register that starts a transfer is not one of the eight of the picture unit. -/
theorem ne_oamDma_of_reachesPpu {address : UInt16} (h : reachesPpu address = true) :
    address ≠ 0x4014 := by
  rintro rfl
  cases h

/-- A write that reaches the picture unit acts on the standing as a write to its register. -/
theorem standing_write_of_reachesPpu {address : UInt16} (h : reachesPpu address = true)
    (m : Memory) (v : UInt8) :
    (m.write address v).ppu.standing = m.ppu.standing.write (ppuRegister address) v := by
  rw [write_eq (ne_oamDma_of_reachesPpu h), if_pos h]
  exact Ppu.standing_write m.ppu m.board (ppuRegister address) v

/-- A write that misses the picture unit can still start a transfer to object memory, which
reads. -/
theorem seen_write_of_not_reachesPpu {address : UInt16} (h : reachesPpu address = false)
    (m : Memory) (v : UInt8) :
    m.ppu.standing.Seen (m.write address v).ppu.standing := by
  by_cases ha : address = 0x4014
  · rw [ha, write_oamDma]
    exact seen_oamDma m v
  · rw [write_eq ha, h]
    exact .refl _

/-- Writing on the stack does not reach the picture unit. -/
theorem not_reachesPpu_of_inStackPage {address : UInt16} (h : Bus.inStackPage address = true) :
    reachesPpu address = false := by
  rw [reachesPpu, Bool.and_eq_false_iff, decide_eq_false_iff_not, UInt16.not_le]
  exact .inl (UInt16.lt_trans (Bus.lt_of_inStackPage h) (by decide))

/-- **A push stores a byte in memory**, and reaches no chip. -/
theorem write_of_inStackPage {address : UInt16} (h : Bus.inStackPage address = true) (m : Memory)
    (v : UInt8) : ∃ ram, m.write address v = { m with ram } := by
  have ha : address < 0x2000 := UInt16.lt_trans (Bus.lt_of_inStackPage h) (by decide)
  unfold write
  rw [if_pos ha]
  exact ⟨_, rfl⟩

/-- What no read reaches is as it was: the sound unit's count of cycles, its delta modulation
channel, and what has been stolen from the processor. -/
structure Spared (m m' : Memory) : Prop where
  cycles : m'.apu.cycles = m.apu.cycles
  dmc : m'.apu.dmc = m.apu.dmc
  pendingStall : m'.pendingStall = m.pendingStall

/-- What is left alone is spared. -/
theorem Spared.refl (m : Memory) : Spared m m := ⟨rfl, rfl, rfl⟩

/-- What is spared twice is spared. -/
theorem Spared.trans {m m' m'' : Memory} (h : Spared m m') (k : Spared m' m'') : Spared m m'' where
  cycles := k.cycles.trans h.cycles
  dmc := k.dmc.trans h.dmc
  pendingStall := k.pendingStall.trans h.pendingStall

/-- A read anywhere spares the board, the sample player and what is pending. -/
theorem spared_read (m : Memory) (address : UInt16) : Spared m (m.read address).2 := by
  rw [read_eq]
  by_cases h : address = 0x4015
  · rw [if_pos h]
    exact ⟨rfl, rfl, rfl⟩
  · rw [if_neg h]
    exact ⟨rfl, rfl, rfl⟩

/-- So does a copy to the object memory, which only reads. -/
theorem spared_copyToOam (m : Memory) (addresses : List UInt16) :
    Spared m (m.copyToOam addresses) :=
  copyToOam_preserves (P := Spared m) (fun k address h => h.trans (spared_read k address))
    (fun _ _ h => ⟨h.cycles, h.dmc, h.pendingStall⟩) (.refl m) addresses

/-- No write reaches the sound unit's count of cycles. -/
theorem cycles_write (m : Memory) (address : UInt16) (v : UInt8) :
    (m.write address v).apu.cycles = m.apu.cycles := by
  by_cases ha : address = 0x4014
  · rw [ha, write_oamDma]
    exact (spared_copyToOam m (pageAddresses v)).cycles
  · rw [write_eq ha]
    dsimp only
    split
    · exact Apu.cycles_write m.apu address v
    · rfl

end Memory
end Famicom
