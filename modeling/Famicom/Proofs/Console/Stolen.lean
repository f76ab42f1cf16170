/-
# Stolen cycles are charged once

Two things steal cycles from the processor: a transfer to object memory, which it starts itself by a
write, and a byte that is read for the delta modulation channel.  Neither charges the processor.
Both leave a note in `Memory.pendingStall`, and the note is taken and charged at the end of the
hardware's share of a cycle (`Console.stolen_eq`).  When the processor has its turn after that
nothing is pending, and if something has been charged it waits; so a transfer that an instruction
starts is charged in the next cycle, once (`Console.total_add_pendingStall_cycle`).
-/

import Famicom.Proofs.Bus.Recording
import Famicom.Proofs.Console.Program
import Famicom.Proofs.Memory.Sample
import Mathlib.Algebra.Ring.Nat

namespace Famicom

open Apu (Dmc)
open Bus (Access Recorded)

/-- Whether an access starts a transfer to object memory. -/
def Bus.Access.startsTransfer (x : Access) : Bool := x.writtenAt == some 0x4014

namespace Event

/-- The cycles that an event costs if it is an instruction. -/
def cost : Event → Nat
  | instruction n => n
  | _ => 0

/-- Whether the processor starts something in its turn. -/
def isStart : Event → Bool
  | irq | instruction _ => true
  | _ => false

/-- The events at which the processor starts something can be counted. -/
theorem steady_isStart : Steady isStart false := ⟨fun _ _ => rfl, fun _ => rfl⟩

/-- So can the IRQs. -/
theorem steady_irq : Steady (· == irq) false := ⟨fun _ _ => rfl, fun _ => rfl⟩

/-- A log without an instruction costs nothing. -/
theorem sum_cost_of_countP {log : List Event} (h : log.countP isInstruction = 0) :
    (log.map cost).sum = 0 := by
  induction log with
  | nil => rfl
  | cons e log ih =>
    rw [List.countP_cons, Nat.add_eq_zero_iff] at h
    rw [List.map_cons, List.sum_cons, ih h.1]
    cases e with
    | instruction n => exact absurd h.2 (by simp [isInstruction])
    | _ => rfl

end Event

namespace Memory

/-! ### Where stolen cycles come from

A write that starts a transfer steals 514 cycles and a fetch of the sample player four.  They are
kept in memory until a cycle takes them. -/

/-- **A write steals cycles** if it starts a transfer to object memory. -/
theorem pendingStall_write (m : Memory) (address : UInt16) (v : UInt8) :
    (m.write address v).pendingStall =
      m.pendingStall + 514 * (Access.write address v).startsTransfer.toNat := by
  by_cases h : address = 0x4014
  · rw [h, write_oamDma]
    exact congrArg (· + 514) (spared_copyToOam m (pageAddresses v)).pendingStall
  · have hs : (Access.write address v).startsTransfer = false :=
      beq_false_of_ne fun he => h (Option.some.inj he)
    rw [hs, write_eq h]
    rfl

/-- **A cycle of the sound unit steals cycles** if a byte is read in it. -/
theorem pendingStall_tickApu (m : Memory) :
    m.tickApu.pendingStall = m.pendingStall + 4 * m.apu.dmc.fetches.toNat := by
  have ht : ({ m with apu := m.apu.tick } : Memory).apu.dmc = m.apu.dmc.clockTimer := m.apu.dmc_tick
  unfold tickApu fetchSample
  rw [Dmc.fetches, ← ht]
  cases ({ m with apu := m.apu.tick } : Memory).apu.dmc.fetchAddress? with
  | none => rfl
  | some address => exact congrArg (· + 4) (spared_read _ address).pendingStall

namespace Logged

variable {l k : Logged}

/-- Stack accesses reach neither the sample player nor what is pending. -/
theorem dmc_stackPath (h : Cpu.StackPath l k) :
    k.memory.apu.dmc = l.memory.apu.dmc ∧ k.memory.pendingStall = l.memory.pendingStall := by
  obtain ⟨writes, h, hn⟩ := h
  refine h.preserves_of_offStack (P := fun k => k.memory.apu.dmc = l.memory.apu.dmc ∧
    k.memory.pendingStall = l.memory.pendingStall) ?_ ?_ hn ⟨rfl, rfl⟩
  · rintro k address ⟨hd, hp⟩
    have hs := spared_read k.memory address
    exact ⟨hs.dmc.trans hd, hs.pendingStall.trans hp⟩
  · rintro k address v ha ⟨hd, hp⟩
    obtain ⟨ram, hw⟩ := write_of_inStackPage ha k.memory v
    show (k.memory.write address v).apu.dmc = _ ∧ (k.memory.write address v).pendingStall = _
    rw [hw]
    exact ⟨hd, hp⟩

end Logged

/-- The accesses in a list that start a transfer. -/
def transfers (accesses : List Access) : Nat := accesses.countP Access.startsTransfer

/-- What the processor steals with its accesses. -/
theorem pendingStall_path {r r' : Recorded Memory} {writes : List (UInt16 × UInt8)}
    (h : Bus.Path r writes r') :
    r'.bus.pendingStall + 514 * transfers r.accesses =
      r.bus.pendingStall + 514 * transfers r'.accesses := by
  refine h.preserves (P := fun k => k.bus.pendingStall + 514 * transfers r.accesses =
    r.bus.pendingStall + 514 * transfers k.accesses) ?_ ?_ rfl
  · intro k address hk
    have hr : (Bus.read k address).2.bus.pendingStall = k.bus.pendingStall :=
      (spared_read k.bus address).pendingStall
    have ht : transfers (Bus.read k address).2.accesses = transfers k.accesses :=
      List.countP_cons_of_neg Bool.false_ne_true
    rw [hr, ht, hk]
  · intro k address v hk
    have hw : (Bus.write k address v).bus.pendingStall =
        k.bus.pendingStall + 514 * (Access.write address v).startsTransfer.toNat :=
      pendingStall_write k.bus address v
    have ht : transfers (Bus.write k address v).accesses =
        transfers k.accesses + (Access.write address v).startsTransfer.toNat := by
      show (Access.write address v :: k.accesses).countP _ = _
      rw [List.countP_cons]
      cases (Access.write address v).startsTransfer <;> rfl
    rw [hw, ht]
    omega

end Memory

/-- A processor that waits adds nothing to the log. -/
theorem Cpu.tickLogged_of_waits {p : Cpu} (h : p.remaining ≠ 0) (l : Memory.Logged) :
    (p.tickLogged l).2.2 = l := by rw [tickLogged, if_pos h]

namespace Console

open Memory (Logged)

variable {c : Console}

/-- After the first dot the channel and what is stolen are as before, whether an NMI is entered or
not. -/
theorem dmc_logNmi (c : Console) :
    c.logNmi.2.memory.apu.dmc = c.memory.apu.dmc ∧
      c.logNmi.2.memory.pendingStall = c.memory.pendingStall := by
  have ht (m : Memory) : m.takeNmi.2.apu.dmc = m.apu.dmc ∧
      m.takeNmi.2.pendingStall = m.pendingStall := by
    unfold Memory.takeNmi
    split <;> exact ⟨rfl, rfl⟩
  obtain ⟨-, h⟩ | ⟨-, r, k, hk, h⟩ := c.logNmi_cases
  · rw [h]
    exact ⟨rfl, rfl⟩
  · obtain ⟨hd, hp⟩ := Logged.dmc_stackPath hk
    obtain ⟨hd', hp'⟩ := ht c.memory.tickPpu
    rw [h]
    exact ⟨hd.trans hd', hp.trans hp'⟩

/-- Taking the stolen cycles takes all that is pending. -/
theorem takeStall_eq (m : Memory) :
    m.takeStall.1 = m.pendingStall ∧ m.takeStall.2.pendingStall = 0 ∧
      m.takeStall.2.apu = m.apu := by
  unfold Memory.takeStall
  split
  · rename_i h
    exact ⟨h.symm, h, rfl⟩
  · exact ⟨rfl, rfl, rfl⟩

/-- **What is charged in a cycle**: what was pending, and four cycles for a byte that is read. -/
theorem stolen_eq (c : Console) :
    c.stolen = c.memory.pendingStall + 4 * c.memory.apu.dmc.fetches.toNat := by
  obtain ⟨hd, hp⟩ := c.dmc_logNmi
  rw [stolen]
  generalize c.logNmi.2 = l at hd hp ⊢
  have h := l.memory.tickPpu.tickPpu.pendingStall_tickApu
  show l.memory.tickPpu.tickPpu.tickApu.tickBoard.takeStall.1 = _
  rw [(takeStall_eq _).1, ← hd, ← hp]
  exact h

/-- When the processor has its turn nothing is pending. -/
theorem pendingStall_tickHardware (c : Console) : c.tickHardware.memory.pendingStall = 0 := by
  rw [logHardware_eq, logHardware]
  dsimp only
  rw [Logged.memory_takeStall]
  exact (takeStall_eq _).2.1

/-! ### What a cycle and a run steal -/

/-- The accesses of the processor in a cycle, the first in front: those of an NMI, and those of its
turn. -/
def accessesOf (c : Console) : Call → List Access
  | .cycle =>
    let nmi := (c.cpu.nmi ({ bus := c.memory.tickPpu.takeNmi.2 } : Recorded Memory)).2.accesses
    let turn :=
      (c.tickHardware.cpu.tick ({ bus := c.tickHardware.memory } : Recorded Memory)).2.2.accesses
    (if c.entersNmi then nmi.reverse else []) ++ turn.reverse
  | _ => []

/-- Where a byte is read for the delta modulation channel in a cycle. -/
def sampleFetchOf (c : Console) : Call → List UInt16
  | .cycle => c.logNmi.2.tickPpu.tickPpu.memory.apu.tick.dmc.fetchAddress?.toList
  | _ => []

/-- What there is of each call of a run, the first in front. -/
def gather {α : Type} (c : Console) (f : Console → Call → List α) : List Call → List α
  | [] => []
  | x :: rest => f c x ++ (c.call x).gather f rest

/-- A cycle makes a fetch exactly if the sample player asks for one. -/
theorem length_sampleFetchOf (c : Console) :
    (c.sampleFetchOf .cycle).length = c.memory.apu.dmc.fetches.toNat := by
  have ht : c.logNmi.2.tickPpu.tickPpu.memory.apu.tick.dmc = c.memory.apu.dmc.clockTimer := by
    rw [Apu.dmc_tick, ← c.dmc_logNmi.1]
    rfl
  rw [sampleFetchOf, ht, Dmc.fetches]
  cases c.memory.apu.dmc.clockTimer.fetchAddress? <;> rfl

/-- The entry into an NMI starts no transfer. -/
theorem transfers_nmi (p : Cpu) (m : Memory) :
    Memory.transfers (p.nmi ({ bus := m } : Recorded Memory)).2.accesses = 0 := by
  obtain ⟨writes, h, hn⟩ := Cpu.stackPath_nmi p ({ bus := m } : Recorded Memory)
  refine h.preserves_of_offStack (P := fun r => Memory.transfers r.accesses = 0) ?_ ?_ hn rfl
  · intro r address hr
    exact (List.countP_cons_of_neg Bool.false_ne_true).trans hr
  · intro r address v ha hr
    refine (List.countP_cons_of_neg ?_).trans hr
    rintro hs
    have he : address = 0x4014 := Option.some.inj (beq_iff_eq.1 hs)
    rw [he] at ha
    cases ha

/-- What the processor steals in its turn. -/
theorem pendingStall_tick (p : Cpu) (m : Memory) :
    (p.tick m).2.2.pendingStall =
      m.pendingStall +
        514 * Memory.transfers (p.tick ({ bus := m } : Recorded Memory)).2.2.accesses := by
  obtain ⟨writes, h, -⟩ := Cpu.storePath_tick p ({ bus := m } : Recorded Memory)
  have hm : Recorded.Records ({ bus := m } : Recorded Memory) m := rfl
  obtain ⟨e, q, r, m', hr, hm', hb⟩ := Cpu.tick_alike Recorded.simulation hm p
  have hp := Memory.pendingStall_path h
  rw [hr, hb] at hp
  rw [hr, hm']
  exact hp

/-- **What is pending after a cycle** are the transfers that the processor has started in it. -/
theorem pendingStall_cycle (c : Console) :
    c.cycle.2.memory.pendingStall = 514 * Memory.transfers (c.accessesOf .cycle) := by
  have hn : Memory.transfers
      (if c.entersNmi then
        (c.cpu.nmi ({ bus := c.memory.tickPpu.takeNmi.2 } : Recorded Memory)).2.accesses.reverse
      else []) = 0 := by
    split
    · exact List.countP_reverse.trans (transfers_nmi _ _)
    · rfl
  rw [Memory.transfers] at hn
  rw [memory_cycle_eq, pendingStall_tick, pendingStall_tickHardware, Nat.zero_add, accessesOf,
    Memory.transfers, Memory.transfers, List.countP_append, List.countP_reverse, hn, Nat.zero_add]

/-- What the log of the hardware's share of a cycle says of the processor: whether it has entered an
NMI. -/
theorem counts_logHardware (c : Console) :
    c.logHardware.2.log.count .nmi = c.entersNmi.toNat ∧ c.logHardware.2.log.count .irq = 0 ∧
      c.logHardware.2.log.countP Event.isInstruction = 0 := by
  refine ⟨?_, ?_, ?_⟩
  · rw [List.count, countP_logHardware_of_not Event.steady_nmi rfl fun _ => rfl]
    exact congrArg Bool.toNat (Bool.and_true _)
  · rw [List.count, countP_logHardware_of_not Event.steady_irq rfl fun _ => rfl]
    exact congrArg Bool.toNat (Bool.and_false _)
  · rw [countP_logHardware_of_not Event.steady_isInstruction rfl fun _ => rfl]
    exact congrArg Bool.toNat (Bool.and_false _)

/-- **What the processor is charged in a cycle**: what is stolen, the entries into interrupts and
the cost of an instruction. -/
theorem total_cycle_eq (c : Console) :
    c.cycle.2.cpu.total = c.cpu.total + c.stolen + ((c.eventsOf .cycle).map Event.cost).sum +
      7 * ((c.eventsOf .cycle).count .nmi + (c.eventsOf .cycle).count .irq) := by
  obtain ⟨hnmi, hirq, hins⟩ := c.counts_logHardware
  have ht := c.total_logHardware
  -- accesses add nothing to what the log says of the processor
  have hpath {k : Logged} {writes : List (UInt16 × UInt8)}
      (hk : Bus.Path c.logHardware.2 writes k) :
      k.log.count .nmi = c.entersNmi.toNat ∧ k.log.count .irq = 0 ∧
        (k.log.map Event.cost).sum = 0 :=
    ⟨(Logged.countP_path Event.steady_nmi hk).trans hnmi,
      (Logged.countP_path Event.steady_irq hk).trans hirq,
      Event.sum_cost_of_countP ((Logged.countP_path Event.steady_isInstruction hk).trans hins)⟩
  rw [charge] at ht
  rw [cpu_cycle, eventsOf, List.map_reverse, List.sum_reverse, List.count_reverse,
    List.count_reverse, logCycle]
  obtain ⟨-, h⟩ | ⟨-, r, k, ⟨writes, hk, -⟩, h⟩ | ⟨-, n, r, k, -, ⟨writes, hk, -⟩, h⟩ |
      ⟨fault, k, ⟨writes, hk, -⟩, h⟩ :=
    Cpu.tickLogged_cases c.logHardware.1 c.logHardware.2
  · obtain ⟨hn, hi, hc⟩ := hpath (.nil _)
    simp only [h, hn, hi, hc]
    omega
  · obtain ⟨hn, hi, hc⟩ := hpath hk
    simp [h, Logged.note, Event.cost, hn, hi, hc]
    omega
  · obtain ⟨hn, hi, hc⟩ := hpath hk
    simp [h, Logged.note, Event.cost, hn, hi, hc]
    omega
  · obtain ⟨hn, hi, hc⟩ := hpath hk
    simp only [h, hn, hi, hc]
    omega

/-- **A call keeps the account**, unless the host writes. -/
theorem total_add_pendingStall_call (c : Console) {x : Call} (hx : x.isWrite = false) :
    (c.call x).cpu.total + (c.call x).memory.pendingStall =
      c.cpu.total + c.memory.pendingStall + ((c.eventsOf x).map Event.cost).sum +
        7 * ((c.eventsOf x).count .nmi + (c.eventsOf x).count .irq) +
        514 * Memory.transfers (c.accessesOf x) + 4 * (c.sampleFetchOf x).length := by
  cases x with
  | cycle =>
    have ht := c.total_cycle_eq
    rw [stolen_eq] at ht
    rw [call, pendingStall_cycle, length_sampleFetchOf]
    omega
  | read address =>
    exact congrArg (c.cpu.total + ·) (Memory.spared_read c.memory address).pendingStall
  | write address v => cases hx
  | hold buttons => rfl
  | clearSamples => rfl

/-- What is gathered along a run begins with what the first call gives. -/
theorem gather_cons {α : Type} (c : Console) (f : Console → Call → List α) (x : Call)
    (rest : List Call) : c.gather f (x :: rest) = f c x ++ (c.call x).gather f rest :=
  rfl

/-- **A run keeps the account**, unless the host writes. -/
theorem total_add_pendingStall_after (c : Console) {calls : List Call}
    (h : ∀ x ∈ calls, x.isWrite = false) :
    (c.after calls).cpu.total + (c.after calls).memory.pendingStall =
      c.cpu.total + c.memory.pendingStall + ((c.events calls).map Event.cost).sum +
        7 * ((c.events calls).count .nmi + (c.events calls).count .irq) +
        514 * Memory.transfers (c.gather accessesOf calls) +
          4 * (c.gather sampleFetchOf calls).length := by
  induction calls generalizing c with
  | nil => rfl
  | cons x rest ih =>
    have hx := c.total_add_pendingStall_call (h x (List.mem_cons_self ..))
    have hr := ih (c.call x) fun y hy => h y (List.mem_cons_of_mem _ hy)
    rw [after_cons, events, gather_cons, gather_cons, List.map_append, List.sum_append,
      List.count_append, List.count_append, List.length_append, Memory.transfers,
      List.countP_append]
    rw [Memory.transfers] at hx hr
    omega

/-! ### The account -/

/-- **When the processor starts something** it has nothing to wait for: nothing has been charged in
this cycle, and so nothing was pending when it began. -/
theorem charge_of_isStart {e : Event} (he : e ∈ c.eventsOf .cycle) (hs : e.isStart = true) :
    c.cpu.remaining = 0 ∧ c.charge = 0 := by
  have hr := c.remaining_logHardware
  by_cases hz : c.logHardware.1.remaining = 0
  · omega
  · have hl : c.logHardware.2.log.countP Event.isStart = 0 := by
      rw [countP_logHardware_of_not Event.steady_isStart rfl fun _ => rfl]
      exact congrArg Bool.toNat (Bool.and_false _)
    rw [eventsOf, List.mem_reverse, logCycle, Cpu.tickLogged_of_waits hz] at he
    exact absurd hs (List.countP_eq_zero.1 hl e he)

/-- **Every stolen cycle is charged exactly once.**  In a run from a reset in which the host does
not write, what the processor has been charged and what is pending come to seven cycles for the
reset, the cost of the instructions, seven cycles for each interrupt that was entered, 514 for each
write to `$4014` and four for each byte that was read for the delta modulation channel.  Whenever
the processor enters an IRQ or starts an instruction nothing is pending, nor was when the cycle
began. -/
theorem stolen_cycles_charged (c : Console) (calls : List Call)
    (h : ∀ x ∈ calls, x.isWrite = false) :
    (c.reset.after calls).cpu.total + (c.reset.after calls).memory.pendingStall =
        7 + ((c.reset.events calls).map Event.cost).sum +
          7 * ((c.reset.events calls).count .nmi + (c.reset.events calls).count .irq) +
          514 * (c.reset.gather accessesOf calls).countP Access.startsTransfer +
          4 * (c.reset.gather sampleFetchOf calls).length ∧
      ∀ before, before ++ [.cycle] <+: calls →
        ∀ e ∈ (c.reset.after before).eventsOf .cycle, e.isStart = true →
          (c.reset.after before).tickHardware.memory.pendingStall = 0 ∧
            (c.reset.after before).memory.pendingStall = 0 := by
  refine ⟨c.reset.total_add_pendingStall_after h, fun before _ e he hs => ?_⟩
  have hc := (charge_of_isStart he hs).2
  rw [charge, stolen_eq] at hc
  exact ⟨pendingStall_tickHardware _, by omega⟩

/-- What a program does that has cycles stolen, until it has been through all the ways there are:
five instructions, the byte of a sample, the IRQ that its end raises, a branch and the store that
starts a transfer. -/
theorem stealing_run :
    let calls := cycles 16 ++ [.read 0x4015, .hold 0x01, .clearSamples] ++ cycles 22
    (∀ x ∈ calls, x.isWrite = false) ∧
      ((stealing.reset.events calls).map Event.cost).sum = 23 ∧
      (stealing.reset.events calls).count .nmi = 0 ∧
      (stealing.reset.events calls).count .irq = 1 ∧
      (stealing.reset.gather accessesOf calls).countP Access.startsTransfer = 1 ∧
      (stealing.reset.gather sampleFetchOf calls).length = 1 := by
  rw [stealing, reset_holding]
  decide +kernel

/-- Its account: a transfer, the byte of a sample and an IRQ have been charged or are pending, and
nothing else has. -/
theorem stolen_cycles_charged_stealing :
    let calls := cycles 16 ++ [.read 0x4015, .hold 0x01, .clearSamples] ++ cycles 22
    (∀ x ∈ calls, x.isWrite = false) ∧
      (stealing.reset.gather accessesOf calls).countP Access.startsTransfer = 1 ∧
      (stealing.reset.gather sampleFetchOf calls).length = 1 ∧
      (stealing.reset.after calls).cpu.total + (stealing.reset.after calls).memory.pendingStall =
        7 + 23 + 7 * 1 + 514 * 1 + 4 * 1 := by
  intro calls
  obtain ⟨h, hc, hn, hi, ht, hf⟩ := stealing_run
  have ha := (stolen_cycles_charged stealing calls h).1
  rw [hc, hn, hi, ht, hf] at ha
  exact ⟨h, ht, hf, ha⟩

end Console
end Famicom
