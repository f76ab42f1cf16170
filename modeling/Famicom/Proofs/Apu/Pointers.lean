/-
# Where the reader stands

The reader of the delta modulation channel keeps two addresses, the start of the sample and the
place of the next byte.  A write puts the start at `$C000` or behind it, a restart takes the place
back to the start, and a place that has come to the end of memory goes on at `$8000`.  So in every
sound unit that can be come to both of them lie in program ROM (`Apu.Reachable.inRom`).
-/

import Famicom.Proofs.Apu.Beats
import Famicom.Proofs.Apu.Pace

namespace Famicom
namespace Apu
namespace Dmc

/-- Both addresses of a reader are addresses of program ROM. -/
structure Reader.InRom (r : Reader) : Prop where
  address : 0x8000 ≤ r.address
  sampleAddress : 0x8000 ≤ r.sampleAddress

/-- After the end of memory the reader goes on in program ROM. -/
theorem le_nextAddress {address : UInt16} (h : 0x8000 ≤ address) :
    0x8000 ≤ nextAddress address := by
  unfold nextAddress
  split
  · exact UInt16.le_refl _
  · rename_i hn
    have hlt : address.toNat < 0xFFFF := by
      have := address.toNat_lt
      have : address.toNat ≠ 0xFFFF := fun e => hn (UInt16.toNat_inj.1 e)
      omega
    rw [UInt16.le_iff_toNat_le] at h ⊢
    rw [UInt16.toNat_add, UInt16.toNat_one, Nat.mod_eq_of_lt (by omega)]
    exact Nat.le_succ_of_le h

/-- Behind the last byte of the address space comes the first of program ROM. -/
example : nextAddress 0xFFFF = 0x8000 ∧ nextAddress 0xC000 = 0xC001 := by decide

/-- Every start that can be written lies in program ROM. -/
theorem le_sampleAddress (v : UInt8) : (0x8000 : UInt16) ≤ 0xC000 + v.toUInt16 * 64 := by
  have hv := v.toNat_lt
  rw [UInt16.le_iff_toNat_le, UInt16.toNat_add, UInt16.toNat_mul, UInt8.toNat_toUInt16]
  show 0x8000 ≤ (0xC000 + v.toNat * 64 % 65536) % 65536
  omega

variable {d : Dmc}

/-- The next byte is in program ROM too: after `0xFFFF` comes `0x8000`. -/
theorem Reader.InRom.next {r : Reader} (h : r.InRom) : r.next.InRom := by
  unfold Reader.next
  dsimp only
  split
  · exact ⟨le_nextAddress h.address, h.sampleAddress⟩
  · split
    · exact ⟨h.sampleAddress, h.sampleAddress⟩
    · exact ⟨le_nextAddress h.address, h.sampleAddress⟩

/-- A sample that starts again starts in program ROM. -/
theorem inRom_setEnabled (h : d.reader.InRom) (enabled : Bool) :
    (d.setEnabled enabled).reader.InRom := by
  unfold Dmc.setEnabled
  split
  · exact ⟨h.address, h.sampleAddress⟩
  · split
    · exact h
    · exact ⟨h.sampleAddress, h.sampleAddress⟩

/-- Every sample address that can be written is one in program ROM. -/
theorem inRom_write (h : d.reader.InRom) (address : UInt16) (v : UInt8) :
    (d.write address v).reader.InRom := by
  have hs := inRom_setEnabled h (v &&& 0x10 != 0)
  unfold Dmc.write
  split
  · exact ⟨h.address, h.sampleAddress⟩
  · exact ⟨h.address, h.sampleAddress⟩
  · exact ⟨h.address, le_sampleAddress v⟩
  · exact ⟨h.address, h.sampleAddress⟩
  · exact ⟨hs.address, hs.sampleAddress⟩
  · exact h

end Dmc

/-- The sound units that can be come to. -/
inductive Reachable : Apu → Prop where
  | ofRate (rate : Nat) : Reachable (.ofRate rate)
  | use {a : Apu} (x : Use) (h : Reachable a) : Reachable (a.use x)

variable {a : Apu}

/-- A reset leaves what no call has yet touched. -/
theorem reachable_reset (a : Apu) : a.reset.Reachable := .ofRate _

/-- Uses lead from a reachable state to a reachable one. -/
theorem Reachable.afterUses (h : a.Reachable) (uses : List Use) : (a.afterUses uses).Reachable :=
  afterUses_preserves (Q := fun _ => True) (fun _ x _ ha => ha.use x) h fun _ _ => trivial

/-- Whatever is done with the sound unit, its reader stays in program ROM. -/
theorem inRom_use (h : a.dmc.reader.InRom) (x : Use) : (a.use x).dmc.reader.InRom := by
  cases x with
  | tick =>
    rw [use, dmc_tick, Dmc.reader_clockTimer]
    exact h
  | write address v =>
    rw [use, dmc_write]
    exact Dmc.inRom_write h address v
  | readStatus => exact h
  | fill v =>
    show (a.dmc.fill v).reader.InRom
    rw [Dmc.reader_fill]
    exact h.next
  | clearSamples => exact h

/-- **In every sound unit that can be come to** the reader stands in program ROM. -/
theorem Reachable.inRom (h : a.Reachable) : a.dmc.reader.InRom := by
  induction h with
  | ofRate rate => exact (⟨by decide, by decide⟩ : ({} : Dmc).reader.InRom)
  | use x _ ih => exact inRom_use ih x

end Apu
end Famicom
