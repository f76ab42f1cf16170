/-
# A program that waits for the vertical blank

The program enables the NMI and then jumps on the spot.  A turn of this loop is three cycles in
which nothing changes but the count of cycles: the processor comes to the jump again
(`Cpu.tick_jump`), and the picture unit goes on by itself.  So as long as the vertical blank has
not started the console spins (`Console.Spins.cycle`), and the cycle in which it starts is the one
in which the NMI is entered (`Console.Spins.count_nmi_events`).  The run is too long to be gone
through cycle by cycle; that the loop is left as it was found carries it.
-/

import Famicom.Proofs.Console.Program
import Famicom.Proofs.Console.Scan

namespace Famicom

namespace Cpu

variable {β : Type} [Bus β] {c : Cpu} {bus : β}

/-- **A jump on the spot** changes no register and leaves the bus as it is, if no interrupt comes
between. -/
theorem tick_jump (hi : c.registers.status.interrupt = true)
    (ho : Bus.read bus c.registers.pc = (0x4C, bus))
    (ht : Bus.readWord bus (c.registers.pc + 1) = (c.registers.pc, bus)) :
    (c.tick bus).2.1.registers = c.registers ∧ (c.tick bus).2.2 = bus := by
  have hd : decode 0x4C = some ⟨.jmp, .absolute⟩ := by decide +kernel
  have hs : c.step bus = (.ok 3, { c with total := c.total + 3 }, bus) := by
    unfold step
    simp only [ho, hd, AddressingMode.locate, ht]
    rfl
  have hq : c.takesIrq bus = false := by rw [takesIrq, hi, Bool.not_true, Bool.and_false]
  unfold tick
  by_cases hr : c.remaining ≠ 0
  · rw [if_pos hr]
    exact ⟨rfl, rfl⟩
  · rw [if_neg hr, if_neg (Bool.eq_false_iff.1 hq), hs]
    exact ⟨rfl, rfl⟩

end Cpu

/-- Memory is read as it stands, and nothing else has a say in it. -/
theorem Memory.read_of_ram_eq {m m' : Memory} (hm : m'.ram = m.ram) {address : UInt16}
    (ha : address < 0x2000) : m'.read address = ((m.read address).1, m') := by
  unfold read
  rw [if_pos ha, if_pos ha, hm]

namespace Console

open Memory (Logged)
open Ppu (Standing)
open Ppu.Raster (blankPosition)

variable {c : Console}

/-- A program that enables the NMI and waits.

| address | |
| --- | --- |
| `$0000` | `LDA #$80` |
| `$0002` | `STA $2000` |
| `$0005` | `JMP $0005` | -/
def enabling : Console := holding [0xA9, 0x80, 0x8D, 0x00, 0x20, 0x4C, 0x05, 0x00]

/-- A console that is in the loop of the program. -/
structure Spins (c : Console) : Prop where
  pc : c.cpu.registers.pc = 0x0005
  masked : c.cpu.registers.status.interrupt = true
  opcode : (c.memory.read 0x0005).1 = 0x4C
  low : (c.memory.read 0x0006).1 = 0x05
  high : (c.memory.read 0x0007).1 = 0x00
  enabled : c.standing.control.nmiEnabled = true
  nmiPending : c.standing.nmiPending = false

/-- The jump on the spot is found as long as memory holds what it did. -/
theorem Spins.read_jump (h : c.Spins) {m : Memory} (hm : m.ram = c.memory.ram) :
    Bus.read m 0x0005 = (0x4C, m) ∧ Bus.readWord m (0x0005 + 1) = (0x0005, m) := by
  have hl : Bus.read m 0x0006 = (0x05, m) := by
    rw [← h.low]
    exact Memory.read_of_ram_eq hm (by decide)
  have hh : Bus.read m 0x0007 = (0x00, m) := by
    rw [← h.high]
    exact Memory.read_of_ram_eq hm (by decide)
  refine ⟨?_, ?_⟩
  · rw [← h.opcode]
    exact Memory.read_of_ram_eq hm (by decide)
  · have ha : (0x0005 + 1 : UInt16) = 0x0006 := by decide
    have hb : (0x0006 + 1 : UInt16) = 0x0007 := by decide
    unfold Bus.readWord Bus.readWordAt
    rw [ha, hb, hl]
    dsimp only
    rw [hh, show Word.ofBytes 0x05 0x00 = 0x0005 by decide]

/-- In the hardware's share of a cycle in which no NMI is entered neither the registers of the
processor nor memory change. -/
theorem logHardware_of_not_entersNmi (hn : c.entersNmi = false) :
    c.logHardware.1.registers = c.cpu.registers ∧
      c.logHardware.2.memory.ram = c.memory.ram := by
  have hd (l : Logged) : l.tickPpu.memory.ram = l.memory.ram := rfl
  -- the sound unit may read a byte for the sample player, which leaves the RAM
  have ha (l : Logged) : l.tickApu.memory.ram = l.memory.ram := by
    show l.memory.tickApu.ram = _
    unfold Memory.tickApu Memory.fetchSample
    dsimp only
    split
    · rfl
    · dsimp only
      rw [Memory.read_eq]
  have hb (l : Logged) : l.tickBoard.memory.ram = l.memory.ram := rfl
  have hs (l : Logged) : l.takeStall.2.memory.ram = l.memory.ram := by
    rw [Logged.memory_takeStall]
    unfold Memory.takeStall
    split <;> rfl
  obtain ⟨-, h⟩ | ⟨h, -⟩ := c.logNmi_cases
  · rw [logHardware, h]
    dsimp only
    rw [hs, hb, ha, hd, hd, hd]
    exact ⟨rfl, rfl⟩
  · rw [hn] at h
    cases h

/-- **A cycle of the loop**, in which the vertical blank does not start. -/
theorem Spins.cycle (h : c.Spins) (h₀ : c.standing.startsVblank = false)
    (h₁ : c.standing.tick.startsVblank = false)
    (h₂ : c.standing.tick.tick.startsVblank = false) :
    c.entersNmi = false ∧ c.cycle.2.Spins := by
  -- no dot of the cycle starts the vertical blank, so nothing is requested
  have hn : c.entersNmi = false := by
    rw [entersNmi_eq, h.nmiPending, h₀, Bool.false_and, Bool.false_or]
  obtain ⟨hr, hm⟩ := logHardware_of_not_entersNmi hn
  have hc := c.control_logHardware
  have hp := c.nmiPending_logHardware
  rw [h₁, h₂, Bool.false_or, Bool.false_and] at hp
  have ht := c.logHardware_eq
  obtain ⟨ho, hw⟩ := h.read_jump hm
  rw [← h.pc, ← hr] at ho hw
  -- the processor waits, or carries out the jump to itself
  obtain ⟨hr', hm'⟩ := Cpu.tick_jump (hr ▸ h.masked) ho hw
  have hcpu : c.cycle.2.cpu.registers = c.cpu.registers := by
    rw [cpu_cycle_eq, ht, hr', hr]
  have hmem : c.cycle.2.memory = c.logHardware.2.memory := by
    rw [memory_cycle_eq, ht, hm']
  have hread {address : UInt16} (ha : address < 0x2000) :
      (c.cycle.2.memory.read address).1 = (c.memory.read address).1 := by
    rw [hmem, Memory.read_of_ram_eq hm ha]
  refine ⟨hn, ?_, ?_, ?_, ?_, ?_, ?_, ?_⟩
  · rw [hcpu, h.pc]
  · rw [hcpu, h.masked]
  · rw [hread (by decide), h.opcode]
  · rw [hread (by decide), h.low]
  · rw [hread (by decide), h.high]
  · rw [standing, hmem]
    exact (congrArg Ppu.Control.nmiEnabled hc).trans h.enabled
  · rw [standing, hmem]
    exact hp

/-- Far from the vertical blank none of the three dots of a cycle starts it. -/
theorem InFrame.not_startsVblank (h : c.InFrame) (hu : 3 < c.untilBlank) :
    c.standing.startsVblank = false ∧ c.standing.tick.startsVblank = false ∧
      c.standing.tick.tick.startsVblank = false := by
  have h₁ : c.standing.tick.raster.InFrame := Standing.inFrame_tick h
  have h₂ : c.standing.tick.tick.raster.InFrame := Standing.inFrame_tick h₁
  obtain ⟨-, hn, -⟩ | ⟨hl, -⟩ :=
    (Standing.approaches_tick h).three (Standing.approaches_tick h₁) (Standing.approaches_tick h₂)
  · rw [List.count_eq_zero] at hn
    rw [Standing.startsVblank_eq h, Standing.startsVblank_eq h₁, Standing.startsVblank_eq h₂]
    simp only [beq_eq_false_iff_ne]
    exact ⟨fun he => hn (by rw [he]; exact List.mem_cons_self ..),
      fun he => hn (by simp [he]), fun he => hn (by simp [he])⟩
  · exact absurd hu (Nat.not_lt.2 hl)

/-- **In the loop the vertical blank comes nearer by three dots with each cycle**, and no NMI is
entered before it has come. -/
theorem Spins.after_cycles (h : c.Spins) (hf : c.InFrame) (hu : c.untilBlank ≤ blankPosition + 1)
    {k : Nat} (hk : 3 * k < c.untilBlank) :
    (c.after (cycles k)).Spins ∧ (c.after (cycles k)).InFrame ∧
      (c.after (cycles k)).untilBlank + 3 * k = c.untilBlank ∧
      (c.events (cycles k)).count .nmi = 0 := by
  induction k with
  | zero => exact ⟨h, hf, rfl, rfl⟩
  | succ k ih =>
    obtain ⟨hs, hi, hd, hn⟩ := ih (by omega)
    have hl : 3 < (c.after (cycles k)).untilBlank := by omega
    obtain ⟨h₀, h₁, h₂⟩ := hi.not_startsVblank hl
    obtain ⟨hc, hs'⟩ := hs.cycle h₀ h₁ h₂
    rw [after_cycles_succ', events_cycles_succ', List.count_append, hn, count_nmi_eventsOf, hc]
    obtain ⟨-, -, -, hu'⟩ | ⟨hl', -⟩ := hi.cycle_cases
    · exact ⟨hs', hi.cycle, by omega, rfl⟩
    · exact absurd hl (Nat.not_lt.2 hl')

/-- **The cycle in which the vertical blank starts**: the NMI is entered, and no other is requested
in the two dots that follow. -/
theorem Spins.startVblank (h : c.Spins) (hf : c.InFrame) (hu : c.untilBlank = 1) :
    c.entersNmi = true ∧ c.cycle.2.standing.nmiPending = false := by
  have h₁ : c.standing.tick.raster.InFrame := Standing.inFrame_tick hf
  have h₂ : c.standing.tick.tick.raster.InFrame := Standing.inFrame_tick h₁
  have hn : c.entersNmi = true := by
    rw [entersNmi_eq, h.enabled, Standing.startsVblank_eq hf,
      show c.standing.raster.untilBlank = 1 from hu, Bool.and_true]
    exact Bool.or_true _
  have hfar : c.standing.tick.raster.untilBlank ≠ 1 ∧
      c.standing.tick.tick.raster.untilBlank ≠ 1 := by
    have ha := Standing.approaches_tick hf
    have hb := Standing.approaches_tick h₁
    have hd : Ppu.dotsPerFrame = 89342 := rfl
    rw [show c.standing.raster.untilBlank = 1 from hu] at ha
    simp only [Ppu.Raster.Approaches] at ha hb
    omega
  have hp : c.logHardware.2.standing.nmiPending = false := by
    rw [nmiPending_logHardware, Standing.startsVblank_eq h₁, Standing.startsVblank_eq h₂,
      beq_false_of_ne hfar.1, beq_false_of_ne hfar.2]
    rfl
  -- the entry keeps the processor waiting, so it writes to no register
  have hw : c.logHardware.1.remaining ≠ 0 := by
    rw [remaining_logHardware, charge, hn, Bool.toNat_true]
    omega
  have hm : c.cycle.2.memory = c.logHardware.2.memory := by
    rw [memory_cycle, logCycle, Cpu.tickLogged, if_pos hw]
  refine ⟨hn, ?_⟩
  rw [standing, hm]
  exact hp

/-- **The NMI comes with the vertical blank**: a console that is in the loop enters one NMI until
then, in the last of the cycles, and no other request waits. -/
theorem Spins.count_nmi_events (h : c.Spins) (hf : c.InFrame) {k : Nat}
    (hk : c.untilBlank = 3 * k + 1) (hu : c.untilBlank ≤ blankPosition + 1) :
    (c.events (cycles (k + 1))).count .nmi = 1 ∧
      (c.after (cycles (k + 1))).standing.nmiPending = false := by
  obtain ⟨hs, hi, hd, hn⟩ := h.after_cycles hf hu (by omega : 3 * k < c.untilBlank)
  obtain ⟨he, hp⟩ := hs.startVblank hi (by omega)
  rw [after_cycles_succ', events_cycles_succ', List.count_append, hn, count_nmi_eventsOf, he]
  exact ⟨rfl, hp⟩

/-- The console when the program has come to the loop. -/
theorem spins_enabling : (enabling.reset.after (cycles 13)).Spins ∧
    (enabling.reset.after (cycles 13)).standing.raster = { line := 0, dot := 39 } ∧
    (enabling.reset.events (cycles 13)).count .nmi = 0 := by
  rw [enabling, reset_holding]
  refine ⟨?_, ?_, ?_⟩
  · constructor <;> decide +kernel
  · decide +kernel
  · decide +kernel

end Console
end Famicom
