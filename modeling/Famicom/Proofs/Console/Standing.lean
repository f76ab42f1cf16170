/-
# The standing of the picture unit in a cycle

The standing of the picture unit goes on by itself, dot by dot, and the log that is kept of a cycle
has no say in it.  In the hardware's share of a cycle two things come between the dots.  A request
for an NMI is taken after the first, and the processor may then push; and the sound unit may read a
byte after the third.  Neither reaches the control register, and once the request has been taken no
other waits (`Console.seen_logNmi`), unless one of the last two dots raises it
(`Console.nmiPending_logHardware`).
-/

import Famicom.Proofs.Console.Events

namespace Famicom

namespace Memory.Logged

open Ppu (Standing)

/-- The standing of the picture unit under the log. -/
def standing (l : Logged) : Standing := l.memory.ppu.standing

variable {l : Logged}

/-- A dot of the address space takes the standing on by a dot. -/
theorem standing_tickPpu (l : Logged) : l.tickPpu.standing = l.standing.tick :=
  Ppu.standing_tick l.memory.ppu l.memory.board

/-- It leaves what is shown and what is hidden. -/
theorem mask_tickPpu (l : Logged) : l.tickPpu.standing.mask = l.standing.mask := by
  rw [standing_tickPpu]
  rfl

/-- The byte that the sound unit may read takes at most the flag of the vertical blank. -/
theorem seen_tickApu (l : Logged) : l.standing.Seen l.tickApu.standing :=
  Memory.seen_tickApu l.memory

/-- A push changes neither the standing nor the log. -/
theorem push_eq {address : UInt16} (ha : Bus.inStackPage address = true) (l : Logged)
    (v : UInt8) : (Bus.write l address v).standing = l.standing ∧
      (Bus.write l address v).log = l.log := by
  have hr : l.memory.requestsNmi address v = false := by
    rw [requestsNmi, not_reachesPpu_of_inStackPage ha, Bool.false_and]
  refine ⟨?_, log_write_of_not_requestsNmi hr⟩
  obtain ⟨ram, hw⟩ := write_of_inStackPage ha l.memory v
  show (l.memory.write address v).ppu.standing = l.standing
  rw [hw]
  rfl

/-- Pushes and reads keep the log, and take no more than the flag of the vertical blank. -/
theorem seen_stackPath {k : Logged} (h : Cpu.StackPath l k) :
    l.standing.Seen k.standing ∧ k.log = l.log := by
  obtain ⟨writes, h, hn⟩ := h
  refine h.preserves_of_offStack (P := fun k => l.standing.Seen k.standing ∧ k.log = l.log)
    ?_ ?_ hn ⟨.refl _, rfl⟩
  · rintro k address ⟨hk, hl⟩
    exact ⟨hk.trans (seen_read k.memory address), hl⟩
  · rintro k address v ha ⟨hk, hl⟩
    obtain ⟨hs, hl'⟩ := push_eq ha k v
    exact ⟨hk.trans (.inl hs), hl'.trans hl⟩

/-- Taking a request for an NMI changes nothing else. -/
theorem standing_takeNmi (l : Logged) :
    l.takeNmi.2.standing = { l.standing with nmiPending := false } := by
  unfold Logged.takeNmi Memory.takeNmi
  dsimp only
  split
  · rfl
  · rename_i h
    simp only [standing, Ppu.standing, Bool.not_eq_true] at h ⊢
    rw [h]

/-- To take the stolen cycles does not touch the picture unit. -/
theorem standing_takeStall (l : Logged) : l.takeStall.2.standing = l.standing := by
  rw [standing, memory_takeStall]
  unfold Memory.takeStall
  split <;> rfl

end Memory.Logged

namespace Console

open Memory (Logged)
open Ppu (Standing)

/-- The standing of the picture unit. -/
def standing (c : Console) : Standing := c.memory.ppu.standing

/-- Whether a request waits can be read off the standing. -/
theorem nmiPending_standing (c : Console) :
    c.standing.nmiPending = c.memory.ppu.nmiPending :=
  rfl

/-- An NMI is entered if a request waits or the first dot raises one. -/
theorem entersNmi_eq (c : Console) :
    c.entersNmi =
      (c.standing.nmiPending || c.standing.startsVblank && c.standing.control.nmiEnabled) :=
  congrArg Standing.nmiPending (Ppu.standing_tick c.memory.ppu c.memory.board)

/-- **After the first dot no request waits**: it has been taken, or there was none. -/
theorem seen_logNmi (c : Console) :
    ({ c.standing.tick with nmiPending := false } : Standing).Seen c.logNmi.2.standing := by
  have ht : ({ memory := c.memory } : Logged).tickPpu.standing = c.standing.tick :=
    Logged.standing_tickPpu _
  obtain ⟨hn, h⟩ | ⟨-, r, k, hk, h⟩ := c.logNmi_cases
  · have hp : c.standing.tick.nmiPending = false := c.entersNmi_eq.symm.trans hn
    rw [h, ht, ← hp]
    exact .refl _
  · have hs := (Logged.seen_stackPath hk).1
    rw [show (({ memory := c.memory } : Logged).tickPpu.takeNmi.2.note .nmi).standing =
      ({ memory := c.memory } : Logged).tickPpu.takeNmi.2.standing from rfl,
      Logged.standing_takeNmi, ht] at hs
    rw [h]
    exact hs

/-- What comes after the third dot in the hardware's share of a cycle takes at most the flag of the
vertical blank. -/
theorem seen_logHardware (c : Console) :
    c.logNmi.2.standing.tick.tick.Seen c.logHardware.2.standing := by
  rw [← Logged.standing_tickPpu, ← Logged.standing_tickPpu, logHardware]
  generalize c.logNmi.2.tickPpu.tickPpu = l
  dsimp only
  rw [Logged.standing_takeStall]
  exact l.seen_tickApu

/-- No dot reaches the control register, and nothing that comes between the dots does. -/
theorem control_logHardware (c : Console) :
    c.logHardware.2.standing.control = c.standing.control :=
  c.seen_logHardware.control.trans c.seen_logNmi.control

/-- **A request that waits for the processor's turn** has been raised by one of the last two
dots. -/
theorem nmiPending_logHardware (c : Console) :
    c.logHardware.2.standing.nmiPending =
      ((c.standing.tick.startsVblank || c.standing.tick.tick.startsVblank) &&
        c.standing.control.nmiEnabled) := by
  have hr := c.seen_logNmi.raster
  have hm := c.seen_logNmi.mask
  have hc := c.seen_logNmi.control
  have hn := c.seen_logNmi.nmiPending
  rw [c.seen_logHardware.nmiPending, Bool.and_or_distrib_right]
  generalize c.logNmi.2.standing = s at hr hm hc hn ⊢
  simp only [Standing.tick, Standing.startsVblank, hr, hm, hc, hn, Bool.false_or]

/-- **The NMIs that are entered in a cycle**: the one that is due after the first dot, or none. -/
theorem count_nmi_eventsOf (c : Console) : (c.eventsOf .cycle).count .nmi = c.entersNmi.toNat := by
  rw [eventsOf, List.count_reverse, List.count, countP_logCycle Event.steady_nmi rfl fun _ => rfl,
    countP_logHardware Event.steady_nmi]
  cases c.entersNmi <;> cases c.stolen != 0 <;> rfl

end Console
end Famicom
