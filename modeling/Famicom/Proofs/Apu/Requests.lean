/-
# How long a request lasts

Two parts of the sound unit request interrupts, the sequencer and the delta modulation channel.  A
request that has been made is not lost: it lasts until somebody takes it back, and there are few
who do (`Apu.Use.takesFrameRequest`, `Apu.Use.takesSampleRequest`).  The sequencer's request has
one source, the last of four steps (`Apu.sequencer_use_cases`), so that a sequencer that is
inhibited has none, and one of five steps makes none.
-/

import Famicom.Proofs.Apu.Channels
import Famicom.Proofs.Apu.Pointers

namespace Famicom
namespace Apu

/-- Whether the sequencer's request is taken back: by a read of the status, and by a write that
inhibits it. -/
def Use.takesFrameRequest : Use → Bool
  | readStatus => true
  | write address v => address == 0x4017 && v &&& 0x40 != 0
  | _ => false

/-- Whether the request of the delta modulation channel is taken back: by a write that switches the
channels, and by one that switches its interrupt off. -/
def Use.takesSampleRequest : Use → Bool
  | write address v => address == 0x4015 || address == 0x4010 && v &&& 0x80 == 0
  | _ => false

variable {a : Apu} {x : Use}

/-- **What can be done with the sequencer.** -/
theorem sequencer_use_cases (a : Apu) (x : Use) :
    (x = .tick ∧ (a.use x).sequencer = a.sequencer.tick.2) ∨
    (∃ v, x = .write 0x4017 v ∧ (a.use x).sequencer = (a.sequencer.write v).2) ∨
    (x = .readStatus ∧ (a.use x).sequencer = { a.sequencer with irq := false }) ∨
    (x.takesFrameRequest = false ∧ (a.use x).sequencer = a.sequencer) := by
  cases x with
  | tick => exact .inl ⟨rfl, sequencer_tick a⟩
  | write address v =>
    by_cases h : address = 0x4017
    · subst h
      exact .inr (.inl ⟨v, rfl, sequencer_write_self a v⟩)
    · refine .inr (.inr (.inr ⟨?_, sequencer_write_of_ne h a v⟩))
      rw [Use.takesFrameRequest, beq_false_of_ne h, Bool.false_and]
  | readStatus => exact .inr (.inr (.inl ⟨rfl, rfl⟩))
  | fill v | clearSamples => exact .inr (.inr (.inr ⟨rfl, rfl⟩))

/-- **A request of the sequencer lasts** until it is taken back. -/
theorem irq_sequencer_use (h : a.sequencer.irq = true) (x : Use) :
    (a.use x).sequencer.irq = !x.takesFrameRequest := by
  rcases sequencer_use_cases a x with ⟨rfl, hs⟩ | ⟨v, rfl, hs⟩ | ⟨rfl, hs⟩ | ⟨hx, hs⟩
  · rw [hs, Sequencer.tick, h]
    rfl
  · rw [hs, Sequencer.write, h]
    rfl
  · rw [hs]
    rfl
  · rw [hs, h, hx]
    rfl

/-- **Where a request of the sequencer comes from**: it was there, or a cycle has passed in which
four steps that are not inhibited can end. -/
theorem irq_of_irq_use (h : (a.use x).sequencer.irq = true) :
    a.sequencer.irq = true ∨
      x = .tick ∧ a.sequencer.fiveStep = false ∧ a.sequencer.inhibit = false := by
  rcases sequencer_use_cases a x with ⟨rfl, hs⟩ | ⟨v, rfl, hs⟩ | ⟨rfl, hs⟩ | ⟨-, hs⟩ <;>
    rw [hs] at h
  · simp only [Sequencer.tick, Sequencer.irqAt, Bool.or_eq_true, Bool.and_eq_true,
      Bool.not_eq_true'] at h
    exact h.imp id fun h => ⟨rfl, h.1.1, h.2⟩
  · exact .inl (Bool.and_eq_true_iff.1 h).1
  · cases h
  · exact .inl h

/-- **An inhibited sequencer requests nothing.** -/
theorem Reachable.irq_of_inhibit (h : a.Reachable) (hi : a.sequencer.inhibit = true) :
    a.sequencer.irq = false := by
  induction h with
  | ofRate rate => rfl
  | @use a x _ ih =>
    rcases sequencer_use_cases a x with ⟨rfl, hs⟩ | ⟨v, rfl, hs⟩ | ⟨rfl, hs⟩ | ⟨-, hs⟩ <;>
      rw [hs] at hi ⊢
    · have hi : a.sequencer.inhibit = true := hi
      rw [Sequencer.tick, ih hi, hi]
      exact Bool.and_false _
    · have hi : (v &&& 0x40 != 0) = true := hi
      rw [Sequencer.write, hi]
      exact Bool.and_false _
    · exact ih hi

/-- A request that is up stays up in a write unless the write takes it. -/
theorem Dmc.irq_write {d : Dmc} (h : d.irq = true) (address : UInt16) (v : UInt8) :
    (d.write address v).irq = !(Use.write address v).takesSampleRequest := by
  unfold Dmc.write
  split
  case h_1 =>
    rw [writeControl, h]
    rfl
  case h_5 => rfl
  case h_6 h₁ _ _ _ h₅ =>
    rw [Use.takesSampleRequest, beq_false_of_ne h₁, beq_false_of_ne h₅]
    exact h
  all_goals exact h

/-- A byte that arrives may raise the request, and does not lower it. -/
theorem Dmc.irq_fill {d : Dmc} (h : d.irq = true) (v : UInt8) : (d.fill v).irq = true := by
  have hr : d.reader.next.irq = true := by
    unfold Reader.next
    dsimp only
    split
    · exact h
    · split
      · exact h
      · exact Bool.or_eq_true_iff.2 (.inl h)
  exact (congrArg Reader.irq (d.reader_fill v)).trans hr

/-- **A request of the delta modulation channel lasts** until it is taken back. -/
theorem irq_dmc_use (h : a.dmc.irq = true) (x : Use) :
    (a.use x).dmc.irq = !x.takesSampleRequest := by
  cases x with
  | tick =>
    have ht : (a.use .tick).dmc = a.dmc.clockTimer := dmc_tick a
    rw [ht]
    exact (congrArg Dmc.Reader.irq a.dmc.reader_clockTimer).trans h
  | write address v =>
    have hw : (a.use (.write address v)).dmc = a.dmc.write address v := dmc_write a address v
    rw [hw]
    exact Dmc.irq_write h address v
  | fill v => exact Dmc.irq_fill h v
  | readStatus | clearSamples => exact h

/-- **How long a request lasts.**  In every sound unit that can be come to the sequencer requests
nothing while it is inhibited.  When it has made a request, this lasts until the status is read, or
the sequencer is written to so that it is inhibited, or the sound unit is reset; a request of the
delta modulation channel lasts until the channels are switched, or its interrupt is switched off,
or the sound unit is reset.  The status shows both requests as they are, and reading it takes back
the sequencer's and does nothing else.  In five steps nothing makes the sequencer request
anything. -/
theorem requests_last (h : a.Reachable) :
    (a.sequencer.inhibit = true → a.sequencer.irq = false) ∧
    (a.sequencer.irq = true →
      (∀ uses, (∀ x ∈ uses, x.takesFrameRequest = false) →
        (a.afterUses uses).sequencer.irq = true) ∧
      (∀ x, x.takesFrameRequest = true → (a.use x).sequencer.irq = false)) ∧
    (a.dmc.irq = true →
      (∀ uses, (∀ x ∈ uses, x.takesSampleRequest = false) → (a.afterUses uses).dmc.irq = true) ∧
      (∀ x, x.takesSampleRequest = true → (a.use x).dmc.irq = false)) ∧
    (a.reset.sequencer.irq = false ∧ a.reset.dmc.irq = false) ∧
    ((a.readStatus.1 &&& 0x40 != 0) = a.sequencer.irq ∧ (a.readStatus.1 &&& 0x80 != 0) = a.dmc.irq ∧
      a.readStatus.2 = { a with sequencer := { a.sequencer with irq := false } }) ∧
    (a.sequencer.fiveStep = true → ∀ x, (a.use x).sequencer.irq = true →
      a.sequencer.irq = true) := by
  refine ⟨h.irq_of_inhibit, fun hi => ⟨fun uses hu => ?_, fun x hx => ?_⟩,
    fun hi => ⟨fun uses hu => ?_, fun x hx => ?_⟩, ⟨rfl, rfl⟩,
    ⟨a.status_shows.2.1, a.status_shows.2.2, rfl⟩, fun hf x hx => ?_⟩
  · refine afterUses_preserves (P := fun a => a.sequencer.irq = true) (fun a x hx ha => ?_) hi hu
    rw [irq_sequencer_use ha, hx]
    rfl
  · rw [irq_sequencer_use hi, hx]
    rfl
  · refine afterUses_preserves (P := fun a => a.dmc.irq = true) (fun a x hx ha => ?_) hi hu
    rw [irq_dmc_use ha, hx]
    rfl
  · rw [irq_dmc_use hi, hx]
    rfl
  · rcases irq_of_irq_use hx with ha | ⟨-, hn, -⟩
    · exact ha
    · rw [hf] at hn
      cases hn

/-- The last of four steps requests an interrupt.  The request outlasts a write that starts the
sequencer again in five steps, and is gone when the status has been read. -/
theorem requests_last_four_steps :
    let a := (ofRate 44100).afterUses (List.replicate 29829 .tick)
    a.Reachable ∧ a.sequencer.irq = true ∧
      (a.afterUses [.tick, .write 0x4017 0x80, .fill 0x55]).sequencer.irq = true ∧
      (a.use .readStatus).sequencer.irq = false := by
  intro a
  have ha : a.Reachable := (Reachable.ofRate 44100).afterUses _
  have hi : a.sequencer.irq = true := by
    have h₀ : Sequenced false false 0 (ofRate 44100) := ⟨rfl, rfl, rfl⟩
    have h := h₀.after fun x (hx : x ∈ List.replicate 29828 .tick) => by
      rw [List.eq_of_mem_replicate hx]
      rfl
    have hrun : a = _ := congrArg (ofRate 44100).afterUses (List.replicate_succ' (n := 29828))
    rw [afterUses_concat] at hrun
    rw [Nat.zero_add, List.count_replicate_self] at h
    rw [hrun]
    exact h.irq_tick.trans (Bool.or_true _)
  obtain ⟨-, hframe, -⟩ := requests_last ha
  exact ⟨ha, hi, (hframe hi).1 _ (by decide), (hframe hi).2 .readStatus rfl⟩

end Apu
end Famicom
