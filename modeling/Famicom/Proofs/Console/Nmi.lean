/-
# Every request for an NMI is served once

A request for an NMI is one bit, which the picture unit raises and the machine looks at after the
first of the three dots of a cycle.  Two requests would be one if the second came before the first
was taken.  That does not happen.  The raster makes one request in a vertical blank, and a program
makes one by enabling the NMI while the flag is up.  An instruction writes at most one register,
and while a request waits that has come in the same cycle the NMI is enabled, so that the write
cannot enable it; when the next instruction comes the request has been taken.

The invariant of the log is `Memory.Logged.Served`: the requests in the log and the one that
waited before are the NMIs in the log and the one that waits now.
-/

import Famicom.Proofs.Console.Spinning
import Famicom.Proofs.Ppu.VerticalBlank

namespace Famicom

namespace Memory.Logged

open Ppu (Standing)

/-- **The requests add up**: what waited before the log began and what has been requested since is
what has been entered and what waits.  No request has come while another was waiting. -/
structure Served (waiting : Bool) (l : Logged) : Prop where
  flag : l.standing.FlagInBlank
  balance : waiting.toNat + l.log.countP Event.isNmiRequest =
    l.log.count .nmi + l.standing.nmiPending.toNat
  unmerged : .nmiRequest true ∉ l.log

variable {waiting : Bool} {l : Logged}

/-- What neither the standing nor the log shows does not change what has been served. -/
theorem Served.seen {l' : Logged} (h : Served waiting l) (k : l.standing.Seen l'.standing)
    (hl : l'.log = l.log) : Served waiting l' where
  flag := h.flag.seen k
  balance := by rw [hl, k.nmiPending]; exact h.balance
  unmerged := by rw [hl]; exact h.unmerged

/-- A request that comes while none waits is the one that waits afterwards. -/
theorem Served.request {l' : Logged} {rest : List Event} (h : Served waiting l)
    (hf : l'.standing.FlagInBlank) (hp : l.standing.nmiPending = false)
    (hp' : l'.standing.nmiPending = true) (hl : l'.log = .nmiRequest false :: rest)
    (hc : rest.countP Event.isNmiRequest = l.log.countP Event.isNmiRequest)
    (hn : rest.count .nmi = l.log.count .nmi) (hm : .nmiRequest true ∉ rest) :
    Served waiting l' where
  flag := hf
  balance := by
    have hb := h.balance
    have h₁ : (Event.nmiRequest false :: rest).countP Event.isNmiRequest =
      rest.countP Event.isNmiRequest + 1 := List.countP_cons_of_pos rfl
    have h₂ : (Event.nmiRequest false :: rest).count .nmi = rest.count .nmi :=
      List.count_cons_of_ne (by decide)
    rw [hp] at hb
    rw [hl, hp', h₁, h₂, hc, hn, ← Nat.add_assoc, hb]
    rfl
  unmerged := by
    rw [hl, List.mem_cons]
    rintro (h' | h')
    · cases h'
    · exact hm h'

/-- A dot serves no request, and raises none while another waits. -/
theorem Served.tickPpu (h : Served waiting l) (hr : l.standing.RequestInBlank) :
    Served waiting l.tickPpu := by
  have hf : l.tickPpu.standing.FlagInBlank := by
    rw [standing_tickPpu]
    exact h.flag.tick
  have ht : l.tickPpu.standing.nmiPending =
      (l.standing.nmiPending || l.standing.startsVblank && l.standing.control.nmiEnabled) := by
    rw [standing_tickPpu]
    rfl
  have hl : l.tickPpu.log = dotEvents l.memory.ppu ++ l.log := rfl
  -- only the start of the vertical blank makes a request, and none waits then
  cases hs : l.standing.startsVblank && l.standing.control.nmiEnabled with
  | false =>
    rw [dotEvents_of_not_startsVblank hs] at hl
    rw [hs, Bool.or_false] at ht
    refine ⟨hf, ?_, ?_⟩
    · rw [hl, ht]
      exact h.balance
    · rw [hl]
      exact List.not_mem_cons_of_ne_of_not_mem (by simp) h.unmerged
  | true =>
    have hp : l.standing.nmiPending = false := by
      rw [Bool.eq_false_iff]
      intro hp
      rw [hr.startsVblank hp] at hs
      cases hs
    have hp' : l.memory.ppu.nmiPending = false := hp
    rw [dotEvents_of_startsVblank hs, hp'] at hl
    rw [hs, Bool.or_true] at ht
    exact h.request hf hp ht hl rfl rfl
      (List.not_mem_cons_of_ne_of_not_mem (by simp) h.unmerged)

/-- A write to a register requests no NMI while another waits for which it was enabled. -/
theorem Served.write (h : Served waiting l) (he : l.standing.RequestEnabled) (address : UInt16)
    (v : UInt8) : Served waiting (l.write address v) := by
  cases ha : reachesPpu address with
  | false =>
    have hr : l.memory.requestsNmi address v = false := by
      rw [requestsNmi, ha, Bool.false_and]
    exact h.seen (seen_write_of_not_reachesPpu ha l.memory v) (log_write_of_not_requestsNmi hr)
  | true =>
    have hw : (l.write address v).standing = l.standing.write (ppuRegister address) v :=
      standing_write_of_reachesPpu ha l.memory v
    have hf : (l.write address v).standing.FlagInBlank := by
      rw [hw]
      exact h.flag.write _ _
    have hp := Standing.nmiPending_write l.standing (ppuRegister address) v
    rw [← hw] at hp
    have hr : l.memory.requestsNmi address v = l.standing.requestsNmi (ppuRegister address) v := by
      rw [requestsNmi, ha, Bool.true_and]
      rfl
    cases hq : l.standing.requestsNmi (ppuRegister address) v with
    | false =>
      rw [hq] at hr hp
      rw [Bool.or_false] at hp
      have hl := log_write_of_not_requestsNmi hr
      refine ⟨hf, ?_, ?_⟩
      · rw [hl, hp]
        exact h.balance
      · rw [hl]
        exact h.unmerged
    | true =>
      -- the write enables the NMI, so none was waiting
      have hn : l.standing.nmiPending = false := by
        rw [Bool.eq_false_iff]
        intro hn
        rw [Standing.requestsNmi, he hn, Bool.not_true, Bool.and_false, Bool.false_and,
          Bool.false_and] at hq
        cases hq
      have hn' : l.memory.ppu.nmiPending = false := hn
      rw [hq] at hr hp
      rw [Bool.or_true] at hp
      have hl := log_write_of_requestsNmi hr
      rw [hn'] at hl
      exact h.request hf hn hp hl rfl rfl h.unmerged

/-- A write requests an NMI only in the vertical blank. -/
theorem requestInBlank_write (hr : l.standing.RequestInBlank) (hf : l.standing.FlagInBlank)
    (address : UInt16) (v : UInt8) : (l.write address v).standing.RequestInBlank := by
  cases ha : reachesPpu address with
  | false => exact hr.seen (seen_write_of_not_reachesPpu ha l.memory v)
  | true =>
    rw [show (l.write address v).standing = l.standing.write (ppuRegister address) v from
      standing_write_of_reachesPpu ha l.memory v]
    exact hr.write hf _ _

/-- **A cycle of the processor merges no requests**, since it writes at most one register. -/
theorem Served.storePath {k : Logged} (h : Served waiting l) (hr : l.standing.RequestInBlank)
    (he : l.standing.RequestEnabled) (hk : Cpu.StorePath l k) :
    Served waiting k ∧ k.standing.RequestInBlank := by
  obtain ⟨writes, hk, hn⟩ := hk
  -- reads and pushes leave the NMI enabled as it was; the one store may enable it, and nothing is
  -- asked of that after it
  refine hk.preserves_once
    (P := fun k => Served waiting k ∧ k.standing.RequestInBlank ∧ k.standing.RequestEnabled)
    (Q := fun k => Served waiting k ∧ k.standing.RequestInBlank)
    ?_ ?_ ?_ ?_ ?_ ?_ hn ⟨h, hr, he⟩
  · rintro k ⟨h, hr, _⟩
    exact ⟨h, hr⟩
  · rintro k address ⟨h, hr, he⟩
    have hs := seen_read k.memory address
    exact ⟨h.seen hs rfl, hr.seen hs, he.seen hs⟩
  · rintro k address ⟨h, hr⟩
    have hs := seen_read k.memory address
    exact ⟨h.seen hs rfl, hr.seen hs⟩
  · rintro k address v ha ⟨h, hr, he⟩
    obtain ⟨hs, hl⟩ := push_eq ha k v
    exact ⟨h.seen (.inl hs) hl, hr.seen (.inl hs), he.seen (.inl hs)⟩
  · rintro k address v ha ⟨h, hr⟩
    obtain ⟨hs, hl⟩ := push_eq ha k v
    exact ⟨h.seen (.inl hs) hl, hr.seen (.inl hs)⟩
  · rintro k address v ⟨h, hr, he⟩
    exact ⟨h.write he address v, requestInBlank_write hr h.flag address v⟩

/-- Taking a request and entering the NMI for it. -/
theorem Served.takeNmi (h : Served waiting l) (hp : l.standing.nmiPending = true) :
    Served waiting (l.takeNmi.2.note .nmi) ∧
      (l.takeNmi.2.note .nmi).standing.nmiPending = false := by
  have ht :
      l.takeNmi.2.memory = { l.memory with ppu := { l.memory.ppu with nmiPending := false } } :=
    congrArg Prod.snd (if_pos hp : l.memory.takeNmi = _)
  have hs : (l.takeNmi.2.note .nmi).standing = { l.standing with nmiPending := false } := by
    rw [show (l.takeNmi.2.note .nmi).standing = l.takeNmi.2.memory.ppu.standing from rfl, ht]
    rfl
  have hb := h.balance
  have hc : (Event.nmi :: l.log).count .nmi = l.log.count .nmi + 1 := List.count_cons_self
  rw [hp] at hb
  refine ⟨⟨?_, ?_, ?_⟩, by rw [hs]⟩
  · rw [hs]
    exact h.flag
  · rw [hs, show (l.takeNmi.2.note .nmi).log = .nmi :: l.log from rfl, hc]
    exact hb
  · exact List.not_mem_cons_of_ne_of_not_mem (by simp) h.unmerged

/-- Noting what is neither a request nor an NMI. -/
theorem Served.note (h : Served waiting l) {e : Event} (he : e.isNmiRequest = false)
    (hn : e ≠ .nmi) : Served waiting (l.note e) where
  flag := h.flag
  balance := by
    have h₁ : (e :: l.log).countP Event.isNmiRequest = l.log.countP Event.isNmiRequest :=
      List.countP_cons_of_neg (by rw [he]; exact Bool.false_ne_true)
    have h₂ : (e :: l.log).count .nmi = l.log.count .nmi := List.count_cons_of_ne hn
    rw [show (l.note e).log = e :: l.log from rfl, h₁, h₂]
    exact h.balance
  unmerged := by
    refine List.not_mem_cons_of_ne_of_not_mem (fun hc => ?_) h.unmerged
    rw [← hc] at he
    cases he

/-- A cycle of the cartridge requests nothing and enters nothing. -/
theorem Served.tickBoard (h : Served waiting l) : Served waiting l.tickBoard := by
  have hm : Served waiting { l with memory := l.memory.tickBoard } := h.seen (.inl rfl) rfl
  exact hm.note rfl (by simp)

/-- A charge is noted, and is neither a request nor an NMI. -/
theorem Served.takeStall (h : Served waiting l) : Served waiting l.takeStall.2 := by
  have hs : Served waiting { l with memory := l.memory.takeStall.2 } := by
    refine h.seen (.inl ?_) rfl
    rw [standing, ← memory_takeStall]
    exact standing_takeStall l
  unfold Logged.takeStall
  dsimp only
  split
  · exact hs
  · exact hs.note rfl (by simp)

end Memory.Logged

namespace Console

open Memory (Logged)
open Ppu (Standing)

/-! ### A console in which requests are served in time

The account is closed cycle by cycle: the requests that were noted are the NMIs that were entered
and the one that may still wait, and that one is served in the next cycle. -/

/-- The signals of the vertical blank are up only in it. -/
structure Timely (c : Console) : Prop where
  flag : c.memory.ppu.standing.FlagInBlank
  request : c.memory.ppu.standing.RequestInBlank

/-- After a reset no request waits. -/
theorem timely_reset (c : Console) : c.reset.Timely where
  flag h := absurd (show ({} : Ppu).standing.vblank = true from h) (by decide)
  request := Standing.requestInBlank_of_not rfl

/-- After the first dot every request has been served. -/
theorem Timely.logNmi {c : Console} (h : c.Timely) :
    Logged.Served c.memory.ppu.nmiPending c.logNmi.2 ∧
      c.logNmi.2.standing.nmiPending = false := by
  have h₀ : Logged.Served c.memory.ppu.nmiPending ({ memory := c.memory } : Logged).tickPpu := by
    refine Logged.Served.tickPpu ⟨h.flag, Nat.add_comm .., ?_⟩ h.request
    exact List.not_mem_nil
  obtain ⟨hp, hn⟩ | ⟨hp, r, k, hk, hn⟩ := c.logNmi_cases
  · rw [hn]
    exact ⟨h₀, hp⟩
  · obtain ⟨ht, hp'⟩ := h₀.takeNmi hp
    obtain ⟨hs, hl⟩ := Logged.seen_stackPath hk
    rw [hn]
    exact ⟨ht.seen hs hl, hs.nmiPending.trans hp'⟩

/-- When the processor's turn comes, a request that waits has come in one of the two dots
before. -/
theorem Timely.logHardware {c : Console} (h : c.Timely) :
    Logged.Served c.memory.ppu.nmiPending c.logHardware.2 ∧
      c.logHardware.2.standing.RequestInBlank ∧ c.logHardware.2.standing.RequestEnabled := by
  obtain ⟨h₀, hp⟩ := h.logNmi
  rw [Console.logHardware]
  generalize c.logNmi.2 = l at h₀ hp ⊢
  have hr₀ := Standing.requestInBlank_of_not hp
  -- a request of the first of these two dots is in the first line of the vertical blank, so the
  -- second dot does not take it out
  have hr₁ : l.tickPpu.standing.RequestInBlank := by
    rw [Logged.standing_tickPpu]
    exact hr₀.tick fun hc => absurd (hc.symm.trans hp) (by simp)
  have hr₂ : l.tickPpu.tickPpu.standing.RequestInBlank := by
    rw [Logged.standing_tickPpu]
    refine hr₁.tick fun hc => ?_
    rw [Logged.standing_tickPpu] at hc ⊢
    exact Standing.line_tick hp hc
  have he : l.tickPpu.tickPpu.standing.RequestEnabled := by
    rw [Logged.standing_tickPpu, Logged.standing_tickPpu]
    exact (Standing.requestEnabled_of_not hp).tick.tick
  have h₂ := (h₀.tickPpu hr₀).tickPpu hr₁
  generalize l.tickPpu.tickPpu = l₂ at h₂ hr₂ he ⊢
  -- the sound unit may read a byte, and the rest is not seen
  have ha : l₂.standing.Seen l₂.tickApu.standing := Memory.seen_tickApu l₂.memory
  have hb : l₂.tickApu.tickBoard.standing = l₂.tickApu.standing := rfl
  have hs : l₂.standing.Seen l₂.tickApu.tickBoard.takeStall.2.standing := by
    rw [Logged.standing_takeStall, hb]
    exact ha
  have hn : Logged.Served c.memory.ppu.nmiPending l₂.tickApu := h₂.seen ha rfl
  dsimp only
  exact ⟨hn.tickBoard.takeStall, hr₂.seen hs, he.seen hs⟩

/-- **In a machine cycle the requests add up.** -/
theorem Timely.logCycle {c : Console} (h : c.Timely) :
    Logged.Served c.memory.ppu.nmiPending c.logCycle.2.2 ∧
      c.logCycle.2.2.standing.RequestInBlank := by
  obtain ⟨hs, hr, he⟩ := h.logHardware
  rw [Console.logCycle]
  generalize c.logHardware.1 = cpu
  generalize c.logHardware.2 = l at hs hr he ⊢
  obtain ⟨k, hk, hc⟩ := cpu.tickLogged_path l
  obtain ⟨hk, hr⟩ := hs.storePath hr he hk
  rcases hc with hc | hc | ⟨n, hc⟩
  · rw [hc]
    exact ⟨hk, hr⟩
  · rw [hc]
    exact ⟨hk.note rfl (by simp), hr⟩
  · rw [hc]
    exact ⟨hk.note rfl (by simp), hr⟩

/-- A cycle keeps the requests timely: the one that waits is entered after its first dot. -/
theorem Timely.cycle {c : Console} (h : c.Timely) : c.cycle.2.Timely := by
  obtain ⟨hs, hr⟩ := h.logCycle
  constructor
  · rw [memory_cycle]
    exact hs.flag
  · rw [memory_cycle]
    exact hr

/-- What the host does between two cycles, if it does not write, neither requests an NMI nor
serves one. -/
theorem Timely.call {c : Console} (h : c.Timely) {x : Call} (hx : x.isWrite = false) :
    (c.call x).Timely ∧
      c.memory.ppu.nmiPending.toNat + (c.eventsOf x).countP Event.isNmiRequest =
        (c.eventsOf x).count .nmi + (c.call x).memory.ppu.nmiPending.toNat ∧
      .nmiRequest true ∉ c.eventsOf x := by
  cases x with
  | cycle =>
    obtain ⟨hs, hr⟩ := h.logCycle
    refine ⟨h.cycle, ?_, ?_⟩
    · rw [eventsOf, List.countP_reverse, List.count_reverse, Console.call, memory_cycle]
      generalize c.logCycle.2.2 = l at hs ⊢
      exact hs.balance
    · rw [eventsOf, List.mem_reverse]
      exact hs.unmerged
  | read address =>
    have hs := Memory.seen_read c.memory address
    refine ⟨⟨h.flag.seen hs, h.request.seen hs⟩, ?_, List.not_mem_nil⟩
    have hp : (c.call (.read address)).memory.ppu.nmiPending = c.memory.ppu.nmiPending :=
      hs.nmiPending
    rw [hp]
    exact Nat.add_comm ..
  | write address v => cases hx
  | hold buttons => exact ⟨⟨h.flag, h.request⟩, Nat.add_comm .., List.not_mem_nil⟩
  | clearSamples => exact ⟨⟨h.flag, h.request⟩, Nat.add_comm .., List.not_mem_nil⟩

/-- In a run in which the host does not write the requests add up. -/
theorem Timely.after {c : Console} (h : c.Timely) {calls : List Call}
    (hw : ∀ x ∈ calls, x.isWrite = false) :
    (c.after calls).Timely ∧
      c.memory.ppu.nmiPending.toNat + (c.events calls).countP Event.isNmiRequest =
        (c.events calls).count .nmi + (c.after calls).memory.ppu.nmiPending.toNat ∧
      .nmiRequest true ∉ c.events calls := by
  induction calls generalizing c with
  | nil => exact ⟨h, Nat.add_comm .., List.not_mem_nil⟩
  | cons x rest ih =>
    obtain ⟨hx, hb, hm⟩ := h.call (hw x (List.mem_cons_self ..))
    obtain ⟨hr, hb', hm'⟩ := ih hx fun y hy => hw y (List.mem_cons_of_mem _ hy)
    refine ⟨hr, ?_, ?_⟩
    · rw [events, List.countP_append, List.count_append, after_cons]
      omega
    · rw [events, List.mem_append]
      rintro (h' | h')
      · exact hm h'
      · exact hm' h'

/-- A request that waits when a cycle begins is served in it. -/
theorem count_nmi_cycle {c : Console} :
    c.memory.ppu.nmiPending.toNat ≤ (c.eventsOf .cycle).count .nmi := by
  rw [count_nmi_eventsOf, entersNmi_eq, ← nmiPending_standing]
  cases c.standing.nmiPending with
  | false => exact Nat.zero_le _
  | true => exact Nat.le_refl 1

/-- **Every request for an NMI is served exactly once, and at once.**  In a run from a reset in
which the host does not write, the requests are the NMIs that the processor has entered and the
one that waits; no request has come while another was waiting; and when one more cycle has been
run every one of them has been served. -/
theorem nmi_requests_served (c : Console) (calls : List Call)
    (h : ∀ x ∈ calls, x.isWrite = false) :
    (c.reset.events calls).countP Event.isNmiRequest =
        (c.reset.events calls).count .nmi +
          (c.reset.after calls).memory.ppu.nmiPending.toNat ∧
      .nmiRequest true ∉ c.reset.events calls ∧
      (c.reset.events calls).countP Event.isNmiRequest ≤
        (c.reset.events (calls ++ [.cycle])).count .nmi := by
  obtain ⟨_, hb, hm⟩ := c.timely_reset.after h
  have h₀ : c.reset.memory.ppu.nmiPending = false := rfl
  rw [h₀] at hb
  have he : (c.reset.events calls).countP Event.isNmiRequest =
      (c.reset.events calls).count .nmi +
        (c.reset.after calls).memory.ppu.nmiPending.toNat := (Nat.zero_add _).symm.trans hb
  refine ⟨he, hm, ?_⟩
  rw [he, events_concat, List.count_append]
  exact Nat.add_le_add_left count_nmi_cycle _

/-- The run of a program that enables the NMI and waits for it (`Console.enabling`), until the first
vertical blank has started. -/
theorem nmi_requests_served_enabling :
    (∀ x ∈ cycles 27395, x.isWrite = false) ∧
      (enabling.reset.events (cycles 27395)).count .nmi = 1 ∧
      (enabling.reset.events (cycles 27395)).countP Event.isNmiRequest = 1 := by
  have h : ∀ x ∈ cycles 27395, x.isWrite = false := by
    intro x hx
    rw [List.eq_of_mem_replicate hx]
    rfl
  obtain ⟨hs, hr, hn⟩ := spins_enabling
  have hf : (enabling.reset.after (cycles 13)).InFrame := by
    rw [InFrame, hr]
    exact ⟨by decide, by decide⟩
  -- thirteen cycles have run the program up to its loop; what follows is the loop until the
  -- vertical blank
  have hu : (enabling.reset.after (cycles 13)).untilBlank = 3 * 27381 + 1 := by
    rw [untilBlank, hr]
    decide +kernel
  obtain ⟨hc, hp⟩ := hs.count_nmi_events hf hu (by rw [hu]; decide)
  have hl : 27395 = 13 + (27381 + 1) := by decide
  have hc' : (enabling.reset.events (cycles 27395)).count .nmi = 1 := by
    rw [hl, events_cycles_add, List.count_append, hn, hc]
  have hp' : (enabling.reset.after (cycles 27395)).standing.nmiPending = false := by
    rw [hl, after_cycles_add, hp]
  have hb := (nmi_requests_served enabling (cycles 27395) h).1
  rw [hc', ← nmiPending_standing, hp'] at hb
  exact ⟨h, hc', hb⟩

end Console
end Famicom
