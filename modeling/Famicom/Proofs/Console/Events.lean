/-
# What happens in a run

A run of the console is a list of calls: machine cycles, and between them whatever the host does
with the address space, the controller and the samples.  `Console.after` is the console that a run
leaves.

What a run leaves does not show what has happened in it.  To say how often something has happened
the run is gone through with a log: `Memory.Logged` is the address space with a log of events, and
`Console.logCycle` is a machine cycle in it, which writes down each dot, each cycle of the
cartridge, each request for an NMI, each interrupt that the processor enters, each charge of
stolen cycles and each instruction that is carried out.  Keeping the log changes nothing:
`Console.logCycle_eq` says that the machine under the log goes on as the machine without it.
-/

import Famicom.Console.Basic
import Famicom.Proofs.Bus.Path
import Famicom.Proofs.Bus.Simulation
import Famicom.Proofs.Memory.Access

namespace Famicom

/-- Something that happens in the console. -/
inductive Event where
  /-- The picture unit has gone through a dot. -/
  | dot (line dot : Nat)
  /-- The cartridge has gone through a cycle. -/
  | board
  /-- An NMI has been requested; `waiting` if a request was waiting already. -/
  | nmiRequest (waiting : Bool)
  /-- The processor has entered an NMI. -/
  | nmi
  /-- The processor has entered an IRQ. -/
  | irq
  /-- Stolen cycles have been charged to the processor. -/
  | stall (cycles : Nat)
  /-- The processor has carried out an instruction, whose cost is given. -/
  | instruction (cycles : Nat)
deriving DecidableEq, Repr

namespace Event

/-- Whether an event is a dot. -/
def isDot : Event → Bool
  | dot .. => true
  | _ => false

/-- Whether an event is a request for an NMI. -/
def isNmiRequest : Event → Bool
  | nmiRequest _ => true
  | _ => false

/-- Whether an event is an instruction. -/
def isInstruction : Event → Bool
  | instruction _ => true
  | _ => false

/-- Whether an event keeps the processor from the next instruction. -/
def isInterruption : Event → Bool
  | nmi | irq | stall _ => true
  | _ => false

/-- Entering an interrupt, or being charged for stolen cycles, is not a dot. -/
theorem isDot_of_isInterruption {e : Event} (h : e.isInterruption = true) :
    e.isDot = false := by
  cases e with
  | nmi | irq | stall => rfl
  | _ => cases h

/-- Neither is it a cycle of the cartridge. -/
theorem ne_board_of_isInterruption {e : Event} (h : e.isInterruption = true) :
    (e == board) = false := by
  cases e with
  | nmi | irq | stall => rfl
  | _ => cases h

/-! ### Kinds of events that can be counted

The accesses of the processor note requests for an NMI and nothing else.  So a kind of events with
no such request in it can be counted part by part along a cycle, whatever is accessed. -/

/-- Something to be counted of which no dot is more than another, and no request for an NMI is
one. -/
structure Steady (p : Event → Bool) (dots : Bool) : Prop where
  dot (line dot : Nat) : p (.dot line dot) = dots
  nmiRequest (waiting : Bool) : p (.nmiRequest waiting) = false

/-- Dots can be counted: all of them count, and a request for an NMI does not. -/
theorem steady_isDot : Steady isDot true := ⟨fun _ _ => rfl, fun _ => rfl⟩

/-- The cycles of the cartridge can be counted. -/
theorem steady_board : Steady (· == board) false := ⟨fun _ _ => rfl, fun _ => rfl⟩

/-- The NMIs that are entered can be counted. -/
theorem steady_nmi : Steady (· == nmi) false := ⟨fun _ _ => rfl, fun _ => rfl⟩

/-- The instructions can be counted. -/
theorem steady_isInstruction : Steady isInstruction false := ⟨fun _ _ => rfl, fun _ => rfl⟩

/-- Whatever keeps the processor from an instruction can be counted. -/
theorem steady_isInterruption : Steady isInterruption false := ⟨fun _ _ => rfl, fun _ => rfl⟩

end Event

namespace Memory

/-! ### An address space that keeps a log

Each operation notes what it does and is otherwise the same, so the log has no say in the run
(`Memory.Logged.Logs`), and a cycle with a log is a cycle. -/

/-- Whether a write requests an NMI. -/
def requestsNmi (m : Memory) (address : UInt16) (v : UInt8) : Bool :=
  reachesPpu address && m.ppu.standing.requestsNmi (ppuRegister address) v

/-- An address space with a log, the last event in front. -/
structure Logged where
  memory : Memory
  log : List Event := []

namespace Logged

/-- Note an event. -/
def note (l : Logged) (e : Event) : Logged := { l with log := e :: l.log }

/-- Write a byte. -/
def write (l : Logged) (address : UInt16) (v : UInt8) : Logged where
  memory := l.memory.write address v
  log :=
    if l.memory.requestsNmi address v then .nmiRequest l.memory.ppu.nmiPending :: l.log else l.log

instance : Bus Logged where
  read l address := ((l.memory.read address).1, { l with memory := (l.memory.read address).2 })
  write := write
  irqLine l := l.memory.apu.irqLine

/-- The events of a dot, the last one in front. -/
def dotEvents (p : Ppu) : List Event :=
  let dot := .dot p.raster.line p.raster.dot
  if p.standing.startsVblank && p.control.nmiEnabled then [.nmiRequest p.nmiPending, dot]
  else [dot]

/-- One dot of the picture unit. -/
def tickPpu (l : Logged) : Logged where
  memory := l.memory.tickPpu
  log := dotEvents l.memory.ppu ++ l.log

/-- Take a request for an NMI. -/
def takeNmi (l : Logged) : Bool × Logged :=
  (l.memory.takeNmi.1, { l with memory := l.memory.takeNmi.2 })

/-- One cycle of the sound unit. -/
def tickApu (l : Logged) : Logged := { l with memory := l.memory.tickApu }

/-- One cycle of the cartridge. -/
def tickBoard (l : Logged) : Logged := note { l with memory := l.memory.tickBoard } .board

/-- Take the stolen cycles. -/
def takeStall (l : Logged) : Nat × Logged :=
  let stolen := l.memory.takeStall.1
  let l := { l with memory := l.memory.takeStall.2 }
  (stolen, if stolen = 0 then l else l.note (.stall stolen))

/-- A write that requests no NMI leaves no entry. -/
theorem log_write_of_not_requestsNmi {l : Logged} {address : UInt16} {v : UInt8}
    (h : l.memory.requestsNmi address v = false) : (l.write address v).log = l.log :=
  if_neg (by rw [h]; exact Bool.false_ne_true)

/-- A write that requests an NMI is noted, with whether a request was waiting. -/
theorem log_write_of_requestsNmi {l : Logged} {address : UInt16} {v : UInt8}
    (h : l.memory.requestsNmi address v = true) :
    (l.write address v).log = .nmiRequest l.memory.ppu.nmiPending :: l.log :=
  if_pos h

/-- A dot is noted, and nothing else where it makes no request. -/
theorem dotEvents_of_not_startsVblank {p : Ppu}
    (h : (p.standing.startsVblank && p.control.nmiEnabled) = false) :
    dotEvents p = [.dot p.raster.line p.raster.dot] :=
  if_neg (by rw [h]; exact Bool.false_ne_true)

/-- The dot in which the vertical blank starts makes a request, if the NMI is enabled, and both are
noted. -/
theorem dotEvents_of_startsVblank {p : Ppu}
    (h : (p.standing.startsVblank && p.control.nmiEnabled) = true) :
    dotEvents p = [.nmiRequest p.nmiPending, .dot p.raster.line p.raster.dot] :=
  if_pos h

/-- Noting the charge does not change what is charged. -/
theorem memory_takeStall (l : Logged) : l.takeStall.2.memory = l.memory.takeStall.2 := by
  unfold takeStall
  dsimp only
  split <;> rfl

/-- An address space with a log is the one given, but for the log. -/
def Logs (l : Logged) (m : Memory) : Prop := l.memory = m

/-- **The log changes nothing for the processor**: an address space with a log and the same
without it are buses that it cannot tell apart. -/
theorem simulation : Bus.Simulation Logs where
  read := by
    rintro l m rfl address
    exact ⟨_, _, _, rfl, rfl, rfl⟩
  write := by
    rintro l m rfl address v
    rfl
  irqLine := by
    rintro l m rfl
    rfl

variable {p : Event → Bool} {dots : Bool}

/-- A write changes no steady count: only a request for an NMI can be noted, and that is not
counted. -/
theorem countP_write (hp : Event.Steady p dots) (l : Logged) (address : UInt16) (v : UInt8) :
    (l.write address v).log.countP p = l.log.countP p := by
  unfold write
  dsimp only
  split
  · exact List.countP_cons_of_neg (by rw [hp.nmiRequest]; exact Bool.false_ne_true)
  · rfl

/-- Accesses change no count but that of the requests for an NMI. -/
theorem countP_path (hp : Event.Steady p dots) {l l' : Logged} {writes : List (UInt16 × UInt8)}
    (h : Bus.Path l writes l') : l'.log.countP p = l.log.countP p := by
  refine h.preserves (P := fun k => k.log.countP p = l.log.countP p) ?_ ?_ rfl
  · intro k address hk
    exact hk
  · intro k address v hk
    exact (countP_write hp k address v).trans hk

/-- A dot adds itself to a steady count, if dots are counted. -/
theorem countP_tickPpu (hp : Event.Steady p dots) (l : Logged) :
    l.tickPpu.log.countP p = l.log.countP p + dots.toNat := by
  have hd : (dotEvents l.memory.ppu).countP p = dots.toNat := by
    unfold dotEvents
    dsimp only
    split <;> cases dots <;> simp [hp.dot, hp.nmiRequest]
  rw [tickPpu, List.countP_append, hd, Nat.add_comm]

/-- A charge is counted once, and only if there is something to charge for. -/
theorem countP_takeStall (p : Event → Bool) (l : Logged) :
    l.takeStall.2.log.countP p =
      l.log.countP p + (l.takeStall.1 != 0 && p (.stall l.takeStall.1)).toNat := by
  unfold takeStall
  dsimp only
  by_cases h : l.memory.takeStall.1 = 0
  · rw [if_pos h, h]
    rfl
  · rw [if_neg h, bne_iff_ne.2 h, Bool.true_and]
    show (Event.stall l.memory.takeStall.1 :: l.log).countP p = _
    rw [List.countP_cons]
    cases p (.stall l.memory.takeStall.1) <;> rfl

end Logged
end Memory

namespace Cpu

open Memory (Logged)

/-- One cycle passes, with an entry in the log if an interrupt is entered or an instruction is
carried out. -/
def tickLogged (c : Cpu) (l : Logged) : Except Fault Unit × Cpu × Logged :=
  if c.remaining ≠ 0 then (.ok (), { c with remaining := c.remaining - 1 }, l)
  else if c.takesIrq l then
    let (_, c, l) := c.irq l
    (.ok (), { c with remaining := c.remaining - 1 }, l.note .irq)
  else
    match c.step l with
    | (.ok cycles, c, l) =>
      (.ok (), { c with remaining := c.remaining + cycles - 1 }, l.note (.instruction cycles))
    | (.error fault, c, l) => (.error fault, c, l)

/-- The log changes nothing for a cycle of the processor. -/
theorem tickLogged_alike (c : Cpu) (l : Logged) :
    Bus.AlikeTwo Logged.Logs (c.tickLogged l) (c.tick l.memory) := by
  have hl : l.Logs l.memory := rfl
  have hirq : c.takesIrq l = c.takesIrq l.memory := rfl
  unfold tickLogged tick
  rw [hirq]
  split
  · exact .intro _ _ hl
  · split
    · obtain ⟨t, q, l₁, m₁, hl₁, hm₁, h⟩ := irq_alike Logged.simulation hl c
      rw [hl₁, hm₁]
      exact .intro _ _ h
    · obtain ⟨e, q, l₁, m₁, hl₁, hm₁, h⟩ := step_alike Logged.simulation hl c
      rw [hl₁, hm₁]
      cases e with
      | ok cycles => exact .intro _ _ h
      | error fault => exact .intro _ _ h

/-- **What a cycle of the processor does**: it waits, enters an IRQ, carries out an instruction,
or stops. -/
theorem tickLogged_cases (c : Cpu) (l : Logged) :
    (c.remaining ≠ 0 ∧
      c.tickLogged l = (.ok (), { c with remaining := c.remaining - 1 }, l)) ∨
    (c.remaining = 0 ∧ ∃ r k, StackPath l k ∧ c.tickLogged l =
      (.ok (), { c with registers := r, remaining := 6, total := c.total + 7 }, k.note .irq)) ∨
    (c.remaining = 0 ∧ ∃ n r k, 2 ≤ n ∧ StorePath l k ∧ c.tickLogged l =
      (.ok (), { c with registers := r, remaining := n - 1, total := c.total + n },
        k.note (.instruction n))) ∨
    ∃ fault k, StorePath l k ∧ c.tickLogged l = (.error fault, c, k) := by
  unfold tickLogged
  by_cases hr : c.remaining ≠ 0
  · exact .inl ⟨hr, if_pos hr⟩
  rw [if_neg hr]
  rw [Decidable.not_not] at hr
  by_cases ht : c.takesIrq l = true
  · -- an interrupt that is taken is not masked
    have hi : ¬ c.registers.status.interrupt = true := by
      rw [takesIrq, Bool.and_eq_true, Bool.not_eq_true'] at ht
      rw [ht.2]
      exact Bool.false_ne_true
    rw [if_pos ht, irq, if_neg hi]
    refine .inr (.inl ⟨hr, (c.interrupt l irqVector).1.registers, _,
      stackPath_interrupt c l irqVector, ?_⟩)
    simp only [interrupt, stall, hr, entryCycles]
  · rw [if_neg ht]
    obtain ⟨fault, hs⟩ | ⟨n, r, hn, hs⟩ := step_cases c l
    · rw [hs]
      exact .inr (.inr (.inr ⟨fault, _, storePath_step c l, rfl⟩))
    · rw [hs]
      refine .inr (.inr (.inl ⟨hr, n, r, _, hn, storePath_step c l, ?_⟩))
      simp only [hr, Nat.zero_add]

/-- **What a cycle of the processor does to the machine**: at most the stores of one instruction,
and one entry in the log. -/
theorem tickLogged_path (c : Cpu) (l : Logged) :
    ∃ k, StorePath l k ∧ ((c.tickLogged l).2.2 = k ∨ (c.tickLogged l).2.2 = k.note .irq ∨
      ∃ n, (c.tickLogged l).2.2 = k.note (.instruction n)) := by
  obtain ⟨_, h⟩ | ⟨_, r, k, hk, h⟩ | ⟨_, n, r, k, _, hk, h⟩ | ⟨fault, k, hk, h⟩ :=
    c.tickLogged_cases l
  · exact ⟨l, ⟨[], .nil l, Nat.zero_le _⟩, .inl (by rw [h])⟩
  · exact ⟨k, hk.storePath, .inr (.inl (by rw [h]))⟩
  · exact ⟨k, hk, .inr (.inr ⟨n, by rw [h]⟩)⟩
  · exact ⟨k, hk, .inl (by rw [h])⟩

end Cpu

namespace Console

open Memory (Logged)

/-! ### A cycle with its log -/

/-- In the second half of a cycle the processor has its turn. -/
theorem cycle_eq (c : Console) :
    c.cycle =
      ((c.tickHardware.cpu.tick c.tickHardware.memory).1,
        { c.tickHardware with
          cpu := (c.tickHardware.cpu.tick c.tickHardware.memory).2.1
          memory := (c.tickHardware.cpu.tick c.tickHardware.memory).2.2 }) := by
  rw [cycle]
  generalize c.tickHardware = k
  rfl

/-- The memory after a cycle is what the processor leaves of it, after the hardware's share. -/
theorem memory_cycle_eq (c : Console) :
    c.cycle.2.memory = (c.tickHardware.cpu.tick c.tickHardware.memory).2.2 := by rw [cycle_eq]

/-- The processor after a cycle is the one that was charged in the hardware's share, a tick
later. -/
theorem cpu_cycle_eq (c : Console) :
    c.cycle.2.cpu = (c.tickHardware.cpu.tick c.tickHardware.memory).2.1 := by rw [cycle_eq]

/-- The first dot of a machine cycle, and the NMI if one is requested, with a log. -/
def logNmi (c : Console) : Cpu × Logged :=
  let (nmi, l) := ({ memory := c.memory } : Logged).tickPpu.takeNmi
  if nmi then c.cpu.nmi (l.note .nmi) else (c.cpu, l)

/-- The picture unit, the sound unit and the cartridge do their share of a machine cycle, with a
log. -/
def logHardware (c : Console) : Cpu × Logged :=
  let rest := c.logNmi.2.tickPpu.tickPpu.tickApu.tickBoard.takeStall
  (c.logNmi.1.stall rest.1, rest.2)

/-- Whether an NMI is entered in the next cycle: a request is there after its first dot. -/
def entersNmi (c : Console) : Bool := c.memory.tickPpu.ppu.nmiPending

/-- The stolen cycles that are charged in the next cycle. -/
def stolen (c : Console) : Nat := c.logNmi.2.tickPpu.tickPpu.tickApu.tickBoard.takeStall.1

/-- One machine cycle, with a log. -/
def logCycle (c : Console) : Except Cpu.Fault Unit × Cpu × Logged :=
  c.logHardware.1.tickLogged c.logHardware.2

/-- The hardware's share of a cycle is the same with a log and without. -/
theorem logHardware_eq (c : Console) :
    c.tickHardware = { c with cpu := c.logHardware.1, memory := c.logHardware.2.memory } := by
  unfold tickHardware logHardware logNmi
  dsimp only
  rw [Logged.memory_takeStall]
  by_cases ht : c.memory.tickPpu.takeNmi.1 = true
  · have hl : (({ memory := c.memory } : Logged).tickPpu.takeNmi).1 = true := ht
    have hn : (({ memory := c.memory } : Logged).tickPpu.takeNmi.2.note .nmi).Logs
      c.memory.tickPpu.takeNmi.2 := rfl
    obtain ⟨cpu, l, m, hl₁, hm₁, h⟩ := Cpu.nmi_alike Logged.simulation hn c.cpu
    rw [if_pos ht, if_pos hl, hl₁, hm₁]
    cases h
    rfl
  · have hl : ¬ (({ memory := c.memory } : Logged).tickPpu.takeNmi).1 = true := ht
    have hm : ({ memory := c.memory } : Logged).tickPpu.takeNmi.2.memory =
      c.memory.tickPpu.takeNmi.2 := rfl
    rw [if_neg ht, if_neg hl, ← hm]
    generalize ({ memory := c.memory } : Logged).tickPpu.takeNmi.2 = l
    rfl

/-- **The log changes nothing**: a machine cycle is the cycle in the log without the log. -/
theorem logCycle_eq (c : Console) :
    c.cycle =
      (c.logCycle.1, { c with cpu := c.logCycle.2.1, memory := c.logCycle.2.2.memory }) := by
  obtain ⟨e, cpu, l, m, hl, hm, h⟩ := Cpu.tickLogged_alike c.logHardware.1 c.logHardware.2
  cases h
  rw [cycle, logHardware_eq, logCycle, hl]
  unfold tickCpu
  dsimp only
  rw [hm]

/-- **What happens after the first dot**: nothing, or the NMI that was requested is entered. -/
theorem logNmi_cases (c : Console) :
    (c.entersNmi = false ∧ c.logNmi = (c.cpu, ({ memory := c.memory } : Logged).tickPpu)) ∨
    (c.entersNmi = true ∧ ∃ r k,
      Cpu.StackPath (({ memory := c.memory } : Logged).tickPpu.takeNmi.2.note .nmi) k ∧
      c.logNmi =
        ({ c.cpu with
            registers := r, remaining := c.cpu.remaining + 7, total := c.cpu.total + 7 }, k)) := by
  rw [entersNmi]
  cases hp : c.memory.tickPpu.ppu.nmiPending with
  | false =>
    have ht : c.memory.tickPpu.takeNmi = (false, c.memory.tickPpu) :=
      if_neg (by rw [hp]; exact Bool.false_ne_true)
    have hl : ({ memory := c.memory } : Logged).tickPpu.takeNmi =
        (false, ({ memory := c.memory } : Logged).tickPpu) := by
      unfold Logged.takeNmi
      exact congrArg (fun t => (t.1, { ({ memory := c.memory } : Logged).tickPpu with
        memory := t.2 })) ht
    refine .inl ⟨rfl, ?_⟩
    rw [logNmi, hl]
    rfl
  -- the request is taken before the NMI is entered, and the NMI writes on the stack only
  | true =>
    have ht : ({ memory := c.memory } : Logged).tickPpu.takeNmi.1 = true :=
      congrArg Prod.fst (if_pos hp : c.memory.tickPpu.takeNmi = _)
    refine .inr ⟨rfl, c.logNmi.1.registers, _, Cpu.stackPath_nmi c.cpu _, ?_⟩
    rw [logNmi]
    dsimp only
    rw [if_pos ht]
    rfl

/-- The first dot and the NMI after it, in a steady count. -/
theorem countP_logNmi {p : Event → Bool} {dots : Bool} (hp : Event.Steady p dots)
    (c : Console) :
    c.logNmi.2.log.countP p = dots.toNat + (c.entersNmi && p .nmi).toNat := by
  have h₀ : ({ memory := c.memory } : Logged).tickPpu.log.countP p = dots.toNat :=
    (Logged.countP_tickPpu hp _).trans (Nat.zero_add _)
  obtain ⟨hw, h⟩ | ⟨hw, r, k, ⟨writes, hk, _⟩, h⟩ := c.logNmi_cases
  · rw [h, hw]
    exact h₀
  · rw [h, hw, Logged.countP_path hp hk, ← h₀]
    show (Event.nmi :: ({ memory := c.memory } : Logged).tickPpu.log).countP p = _
    rw [List.countP_cons]
    cases p .nmi <;> rfl

/-- **What the hardware's share of a cycle counts to**: three dots, a cycle of the cartridge, the
NMI and the charge. -/
theorem countP_logHardware {p : Event → Bool} {dots : Bool} (hp : Event.Steady p dots)
    (c : Console) :
    c.logHardware.2.log.countP p =
      3 * dots.toNat + (p .board).toNat + (c.entersNmi && p .nmi).toNat +
        (c.stolen != 0 && p (.stall c.stolen)).toNat := by
  have hb (l : Logged) : l.tickBoard.log.countP p = l.log.countP p + (p .board).toNat := by
    show (Event.board :: l.log).countP p = _
    rw [List.countP_cons]
    cases p .board <;> rfl
  have ha (l : Logged) : l.tickApu.log = l.log := rfl
  have h₀ := countP_logNmi hp c
  rw [logHardware, stolen]
  generalize c.logNmi.2 = l at h₀ ⊢
  dsimp only
  rw [Logged.countP_takeStall, hb, ha, Logged.countP_tickPpu hp, Logged.countP_tickPpu hp, h₀]
  omega

/-- What is no dot, no cycle of the cartridge and no charge comes in the hardware's share of a
cycle only with an NMI. -/
theorem countP_logHardware_of_not {p : Event → Bool} (hp : Event.Steady p false)
    (hb : p .board = false) (hs : ∀ n, p (.stall n) = false) (c : Console) :
    c.logHardware.2.log.countP p = (c.entersNmi && p .nmi).toNat := by
  rw [countP_logHardware hp, hb, hs, Bool.and_false]
  exact Nat.zero_add _

/-- The cycles that the processor is charged for in the hardware's share of a cycle. -/
def charge (c : Console) : Nat := 7 * c.entersNmi.toNat + c.stolen

/-- **In the hardware's share of a cycle the processor is charged** for an NMI and for what is
stolen. -/
theorem charge_logHardware (c : Console) :
    ∃ r, c.logHardware.1 =
      { c.cpu with
        registers := r
        remaining := c.cpu.remaining + c.charge
        total := c.cpu.total + c.charge } := by
  unfold logHardware charge
  dsimp only
  rw [show c.logNmi.2.tickPpu.tickPpu.tickApu.tickBoard.takeStall.1 = c.stolen from rfl]
  generalize c.stolen = stolen
  obtain ⟨hn, h⟩ | ⟨hn, r, k, _, h⟩ := c.logNmi_cases
  · refine ⟨c.cpu.registers, ?_⟩
    rw [h, hn, Cpu.stall]
    simp only [Bool.toNat_false, Nat.mul_zero, Nat.zero_add]
  · refine ⟨r, ?_⟩
    rw [h, hn, Cpu.stall]
    simp only [Bool.toNat_true, Nat.mul_one, Nat.add_assoc]

/-- What the processor is charged for is added to the cycles for which it waits. -/
theorem remaining_logHardware (c : Console) :
    c.logHardware.1.remaining = c.cpu.remaining + c.charge := by
  obtain ⟨r, h⟩ := c.charge_logHardware
  rw [h]

/-- It is added to the cycles that have ever been charged, too. -/
theorem total_logHardware (c : Console) : c.logHardware.1.total = c.cpu.total + c.charge := by
  obtain ⟨r, h⟩ := c.charge_logHardware
  rw [h]

/-- The processor counts to nothing in a cycle but by an IRQ or an instruction. -/
theorem countP_logCycle {p : Event → Bool} {dots : Bool} (hp : Event.Steady p dots)
    (hq : p .irq = false) (hi : ∀ n, p (.instruction n) = false) (c : Console) :
    c.logCycle.2.2.log.countP p = c.logHardware.2.log.countP p := by
  obtain ⟨k, ⟨writes, hk, _⟩, h⟩ := Cpu.tickLogged_path c.logHardware.1 c.logHardware.2
  rw [logCycle, ← Logged.countP_path hp hk]
  rcases h with h | h | ⟨n, h⟩
  · rw [h]
  · rw [h]
    exact List.countP_cons_of_neg (by rw [hq]; exact Bool.false_ne_true)
  · rw [h]
    exact List.countP_cons_of_neg (by rw [hi]; exact Bool.false_ne_true)

/-- The memory after a cycle is the one with a log, without the log. -/
theorem memory_cycle (c : Console) : c.cycle.2.memory = c.logCycle.2.2.memory := by
  rw [logCycle_eq]

/-- The processor after a cycle is the one that ran with the log. -/
theorem cpu_cycle (c : Console) : c.cycle.2.cpu = c.logCycle.2.1 := by rw [logCycle_eq]

/-- A cycle stops with a log exactly where it stops without. -/
theorem result_cycle (c : Console) : c.cycle.1 = c.logCycle.1 := by rw [logCycle_eq]

/-! ### Runs

Between two cycles the host may read, write, hold buttons and drop samples.  A run is any list of
these calls and of cycles. -/

/-- What the host can ask of the console between two resets. -/
inductive Call where
  /-- Run a machine cycle. -/
  | cycle
  /-- Read a byte of the address space. -/
  | read (address : UInt16)
  /-- Write a byte of the address space. -/
  | write (address : UInt16) (v : UInt8)
  /-- Hold exactly the buttons given. -/
  | hold (buttons : UInt8)
  /-- Drop the samples. -/
  | clearSamples
deriving DecidableEq, Repr

/-- Whether a call is a machine cycle. -/
def Call.isCycle : Call → Bool
  | cycle => true
  | _ => false

/-- Whether a call is a write. -/
def Call.isWrite : Call → Bool
  | write .. => true
  | _ => false

/-- The console that a call leaves. -/
def call (c : Console) : Call → Console
  | .cycle => c.cycle.2
  | .read address => (c.read address).2
  | .write address v => c.write address v
  | .hold buttons => c.hold buttons
  | .clearSamples => c.clearSamples

/-- The console that a run leaves. -/
def after (c : Console) (calls : List Call) : Console := calls.foldl call c

/-- What happens in a call, the first event in front. -/
def eventsOf (c : Console) : Call → List Event
  | .cycle => c.logCycle.2.2.log.reverse
  | .write address v => (({ memory := c.memory } : Logged).write address v).log
  | _ => []

/-- What happens in a run, the first event in front. -/
def events (c : Console) : List Call → List Event
  | [] => []
  | x :: rest => c.eventsOf x ++ (c.call x).events rest

/-- The processor does not stop in a call. -/
def Succeeds (c : Console) : Call → Prop
  | .cycle => c.cycle.1 = .ok ()
  | _ => True

/-- The processor does not stop in a run. -/
def AllSucceed (c : Console) : List Call → Prop
  | [] => True
  | x :: rest => c.Succeeds x ∧ (c.call x).AllSucceed rest

instance decidableSucceeds (c : Console) : (x : Call) → Decidable (c.Succeeds x)
  | .cycle => inferInstanceAs (Decidable (c.cycle.1 = .ok ()))
  | .read _ | .write .. | .hold _ | .clearSamples => inferInstanceAs (Decidable True)

instance decidableAllSucceed (c : Console) : (calls : List Call) → Decidable (c.AllSucceed calls)
  | [] => inferInstanceAs (Decidable True)
  | x :: rest =>
    have := decidableAllSucceed (c.call x) rest
    inferInstanceAs (Decidable (c.Succeeds x ∧ (c.call x).AllSucceed rest))

/-- A run begins with its first call. -/
theorem after_cons (c : Console) (x : Call) (rest : List Call) :
    c.after (x :: rest) = (c.call x).after rest :=
  rfl

/-- A run can be interrupted and gone on with. -/
theorem after_append (c : Console) (l r : List Call) :
    c.after (l ++ r) = (c.after l).after r :=
  List.foldl_append

/-- The events of two runs, one after the other. -/
theorem events_append (c : Console) (l r : List Call) :
    c.events (l ++ r) = c.events l ++ (c.after l).events r := by
  induction l generalizing c with
  | nil => rfl
  | cons x l ih => rw [List.cons_append, events, events, ih, List.append_assoc, after_cons]

/-- One call more adds its events at the end. -/
theorem events_concat (c : Console) (calls : List Call) (x : Call) :
    c.events (calls ++ [x]) = c.events calls ++ (c.after calls).eventsOf x := by
  rw [events_append, events, events, List.append_nil]

end Console
end Famicom
