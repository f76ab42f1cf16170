/-
# Address spaces that differ in their resamplers

The way from the sound unit to the samples is one-way: the resampler is given a level in every
cycle, and no part of the machine asks it for anything.  So with another resampler everything goes
on as before (`Memory.withResampler`), and two address spaces that differ in nothing but their
resamplers are buses that the processor cannot tell apart (`Memory.Twins.simulation`).  The two
resamplers are given the same levels, so a relation between them that lasts while both are given a
level (`Apu.Resampler.Lasting`) lasts in the whole machine.
-/

import Famicom.Memory.Basic
import Famicom.Proofs.Bus.Simulation

namespace Famicom

namespace Apu

/-- A relation between two resamplers that lasts while both are given the same levels. -/
def Resampler.Lasting (Q : Resampler → Resampler → Prop) : Prop :=
  ∀ r s level, Q r s → Q (r.tick level) (s.tick level)

/-- The sound unit with another resampler. -/
def withResampler (a : Apu) (r : Resampler) : Apu := { a with resampler := r }

/-- What the channels hear does not reach the resampler. -/
theorem hear_withResampler (a : Apu) (beat : Beat) (r : Resampler) :
    (a.withResampler r).hear beat = (a.hear beat).withResampler r := by
  cases beat <;> rfl

/-- A cycle of the timers does not look at the resampler. -/
theorem clockTimers_withResampler (a : Apu) (r : Resampler) :
    (a.withResampler r).clockTimers = a.clockTimers.withResampler r := by
  unfold clockTimers withResampler
  dsimp only
  split <;> rfl

/-- A cycle of the sequencer does not either. -/
theorem clockSequencer_withResampler (a : Apu) (r : Resampler) :
    (a.withResampler r).clockSequencer = a.clockSequencer.withResampler r :=
  hear_withResampler { a with sequencer := a.sequencer.tick.2 } a.sequencer.tick.1 r

/-- No register of the sound unit reaches the resampler. -/
theorem write_withResampler (a : Apu) (address : UInt16) (v : UInt8) (r : Resampler) :
    (a.withResampler r).write address v = (a.write address v).withResampler r := by
  unfold write
  split
  case h_20 =>
    exact hear_withResampler { a with sequencer := (a.sequencer.write v).2 }
      (a.sequencer.write v).1 r
  all_goals rfl

/-- The level that the resampler is given in a cycle. -/
def levelOfTick (a : Apu) : Float32 := a.clockTimers.clockSequencer.level

/-- A whole cycle does the same with another resampler, which takes the same level. -/
theorem tick_withResampler (a : Apu) (r : Resampler) :
    (a.withResampler r).tick = a.tick.withResampler (r.tick a.levelOfTick) := by
  unfold tick
  rw [clockTimers_withResampler, clockSequencer_withResampler]
  rfl

/-- In a cycle the resampler takes the level that the channels have come to. -/
theorem resampler_tick (a : Apu) : a.tick.resampler = a.resampler.tick a.levelOfTick :=
  congrArg Apu.resampler (a.tick_withResampler a.resampler)

end Apu

namespace Memory

open Apu (Resampler)
open Bus (Alike)

/-- The address space with another resampler. -/
def withResampler (m : Memory) (r : Resampler) : Memory := { m with apu := m.apu.withResampler r }

/-- A read has the same answer with another resampler: the status shows nothing of it. -/
theorem read_withResampler (m : Memory) (address : UInt16) (r : Resampler) :
    (m.withResampler r).read address =
      ((m.read address).1, (m.read address).2.withResampler r) := by
  unfold read
  split
  · rfl
  · split
    · rfl
    · split
      · split <;> rfl
      · rfl

/-- Copying to the object memory is reads and stores, so by induction the resampler is not met. -/
theorem copyToOam_withResampler (m : Memory) (addresses : List UInt16) (r : Resampler) :
    (m.withResampler r).copyToOam addresses = (m.copyToOam addresses).withResampler r := by
  induction addresses generalizing m with
  | nil => rfl
  | cons address rest ih =>
    rw [copyToOam, copyToOam, read_withResampler]
    exact ih { (m.read address).2 with ppu := (m.read address).2.ppu.writeOam (m.read address).1 }

/-- A transfer, with the cycles that it steals. -/
theorem oamDma_withResampler (m : Memory) (page : UInt8) (r : Resampler) :
    (m.withResampler r).oamDma page = (m.oamDma page).withResampler r := by
  unfold oamDma
  rw [copyToOam_withResampler]
  rfl

/-- A write does the same, to the registers of the sound unit too. -/
theorem write_withResampler (m : Memory) (address : UInt16) (v : UInt8) (r : Resampler) :
    (m.withResampler r).write address v = (m.write address v).withResampler r := by
  unfold write
  split
  · rfl
  · split
    · rfl
    · split
      · split
        · exact oamDma_withResampler m v r
        · rfl
        · exact congrArg (fun apu => { m with apu }) (m.apu.write_withResampler address v r)
      · split <;> rfl

/-- Reading a byte for the sample player does the same. -/
theorem fetchSample_withResampler (m : Memory) (r : Resampler) :
    (m.withResampler r).fetchSample = m.fetchSample.withResampler r := by
  have hd : (m.withResampler r).apu.dmc = m.apu.dmc := rfl
  unfold fetchSample
  rw [hd]
  cases m.apu.dmc.fetchAddress? with
  | none => rfl
  | some address =>
    dsimp only
    rw [read_withResampler]
    rfl

/-- A request is there with the one resampler if it is with the other. -/
theorem takeNmi_withResampler (m : Memory) (r : Resampler) :
    (m.withResampler r).takeNmi = (m.takeNmi.1, m.takeNmi.2.withResampler r) := by
  unfold takeNmi withResampler
  dsimp only
  split <;> rfl

/-- The same cycles are stolen. -/
theorem takeStall_withResampler (m : Memory) (r : Resampler) :
    (m.withResampler r).takeStall = (m.takeStall.1, m.takeStall.2.withResampler r) := by
  unfold takeStall withResampler
  dsimp only
  split <;> rfl

/-- Two address spaces that differ in nothing but their resamplers, between which there is a
relation. -/
def Twins (Q : Resampler → Resampler → Prop) (m k : Memory) : Prop :=
  ∃ r, k = m.withResampler r ∧ Q m.apu.resampler r

namespace Twins

variable {Q : Resampler → Resampler → Prop} {m k : Memory}

/-- What gives an answer and does not reach the resampler gives the same answer. -/
theorem answer {α : Type} {f : Memory → α × Memory}
    (hf : ∀ m r, f (m.withResampler r) = ((f m).1, (f m).2.withResampler r)) (h : Twins Q m k) :
    Alike (Twins Q) (f m) (f k) := by
  obtain ⟨r, rfl, hq⟩ := h
  have hr : (f m).2.apu.resampler = m.apu.resampler :=
    congrArg (fun x => x.2.apu.resampler) (hf m m.apu.resampler)
  rw [hf]
  exact .intro (f m).1 ⟨r, rfl, by rwa [hr]⟩

/-- What does not reach the resampler keeps twins. -/
theorem map {f : Memory → Memory} (hf : ∀ m r, f (m.withResampler r) = (f m).withResampler r)
    (h : Twins Q m k) : Twins Q (f m) (f k) := by
  obtain ⟨_, _, _, hm, hk, ht⟩ :=
    h.answer (f := fun m => ((), f m)) fun m r => congrArg (Prod.mk ()) (hf m r)
  obtain ⟨-, rfl⟩ := Prod.mk.inj hm
  obtain ⟨-, rfl⟩ := Prod.mk.inj hk
  exact ht

/-- A read has the same answer on twins, and leaves twins. -/
theorem read (h : Twins Q m k) (address : UInt16) :
    Alike (Twins Q) (m.read address) (k.read address) :=
  h.answer (f := (Memory.read · address)) fun m r => m.read_withResampler address r

/-- A write leaves twins. -/
theorem write (h : Twins Q m k) (address : UInt16) (v : UInt8) :
    Twins Q (m.write address v) (k.write address v) :=
  h.map (f := (Memory.write · address v)) fun m r => m.write_withResampler address v r

/-- **The processor cannot tell twins apart.** -/
theorem simulation : Bus.Simulation (Twins Q) where
  read h address := h.read address
  write h address v := h.write address v
  irqLine := by
    rintro m k ⟨r, rfl, -⟩
    rfl

/-- A dot leaves twins. -/
theorem tickPpu (h : Twins Q m k) : Twins Q m.tickPpu k.tickPpu := h.map fun _ _ => rfl

/-- A cycle of the cartridge leaves twins. -/
theorem tickBoard (h : Twins Q m k) : Twins Q m.tickBoard k.tickBoard := h.map fun _ _ => rfl

/-- Both twins have a request or neither has. -/
theorem takeNmi (h : Twins Q m k) : Alike (Twins Q) m.takeNmi k.takeNmi :=
  h.answer takeNmi_withResampler

/-- The same cycles are stolen from twins. -/
theorem takeStall (h : Twins Q m k) : Alike (Twins Q) m.takeStall k.takeStall :=
  h.answer takeStall_withResampler

/-- Holding buttons leaves twins. -/
theorem hold (h : Twins Q m k) (b : UInt8) : Twins Q (m.hold b) (k.hold b) :=
  h.map (f := (Memory.hold · b)) fun _ _ => rfl

/-- Taking notice of a frame leaves twins. -/
theorem clearFrameReady (h : Twins Q m k) : Twins Q m.clearFrameReady k.clearFrameReady :=
  h.map fun _ _ => rfl

/-- **In a cycle of the sound unit** both resamplers are given the same level. -/
theorem tickApu (hQ : Resampler.Lasting Q) (h : Twins Q m k) : Twins Q m.tickApu k.tickApu := by
  have ht : Twins Q { m with apu := m.apu.tick } { k with apu := k.apu.tick } := by
    obtain ⟨r, rfl, hq⟩ := h
    refine ⟨r.tick m.apu.levelOfTick, ?_, ?_⟩
    · exact congrArg (fun apu => { m with apu }) (m.apu.tick_withResampler r)
    · show Q m.apu.tick.resampler _
      rw [Apu.resampler_tick]
      exact hQ _ _ _ hq
  exact ht.map (f := fetchSample) fetchSample_withResampler

end Twins
end Memory
end Famicom
