/-
# No store is swallowed

After a complete group the serial board does not listen for three cycles, and a store that came in
these cycles would be lost.  None does.  A store to program ROM costs the processor four cycles, of
which three are still to be waited for when its turn is over, and in each cycle the board has its
share before the processor; stolen cycles and interrupts only make the processor wait for longer.
So the board always listens again before the processor has its next turn (`Console.Rests`).  Only
the host could write faster.
-/

import Famicom.Proofs.Console.Debt
import Famicom.Proofs.Console.Program
import Famicom.Proofs.Console.Reachable
import Famicom.Proofs.Cpu.StoreCost

namespace Famicom
namespace Console

open Board (Unmoved SilentFor)
open Bus (Access Recorded)
open Memory (romWrites Moved)

variable {c : Console}

/-- **In the hardware's share of a cycle** a cycle passes on the board, and no more is done to
it. -/
theorem unmoved_tickHardware (c : Console) :
    Unmoved c.memory.board.tick c.tickHardware.memory.board := by
  obtain ⟨cpu, m, frames, settings⟩ := c
  have hn : Unmoved m.board (if m.tickPpu.takeNmi.1 then cpu.nmi m.tickPpu.takeNmi.2
      else (cpu, m.tickPpu.takeNmi.2)).2.board := by
    have ht : Unmoved m.board m.tickPpu.takeNmi.2.board := by
      rw [Memory.board_takeNmi]
      exact .refl _
    split
    · exact ht.trans (Memory.unmoved_stackPath (Cpu.stackPath_nmi cpu _))
    · exact ht
  unfold tickHardware
  dsimp only
  generalize (if m.tickPpu.takeNmi.1 then cpu.nmi m.tickPpu.takeNmi.2
    else (cpu, m.tickPpu.takeNmi.2)) = entered at hn ⊢
  rw [Memory.board_takeStall]
  show Unmoved m.board.tick entered.2.tickPpu.tickPpu.tickApu.board.tick
  rw [Memory.board_tickApu]
  exact hn.tick

/-- The processor's turn in a cycle, with a record of its accesses. -/
def turn (c : Console) : Cpu × Recorded Memory :=
  (c.tickHardware.cpu.tick ({ bus := c.tickHardware.memory } : Recorded Memory)).2

/-- The record changes nothing. -/
theorem cycle_eq_turn (c : Console) :
    c.cycle.2.cpu = c.turn.1 ∧ c.cycle.2.memory = c.turn.2.bus := by
  rw [cpu_cycle_eq, memory_cycle_eq, turn]
  generalize c.tickHardware = d
  have hm : ({ bus := d.memory } : Recorded Memory).Records d.memory := rfl
  obtain ⟨e, cpu, r, m, hr, hm, h⟩ := Cpu.tick_alike Recorded.simulation hm d.cpu
  rw [hr, hm]
  exact ⟨rfl, h.symm⟩

/-- In its turn the processor moves the board once, if it does. -/
theorem moved_turn (c : Console) : Moved c.tickHardware.memory.board c.turn.2 := by
  unfold turn
  generalize c.tickHardware = d
  exact Memory.moved_storePath
    (Cpu.storePath_tick d.cpu ({ bus := d.memory } : Recorded Memory)) rfl

/-- A processor that writes to program ROM in its turn waits for three cycles then. -/
theorem three_le_remaining {address : UInt16} {v : UInt8}
    (h : (address, v) ∈ romWrites c.turn.2.accesses) :
    c.tickHardware.cpu.remaining = 0 ∧ 3 ≤ c.cycle.2.cpu.remaining := by
  obtain ⟨hm, ha⟩ := Memory.mem_romWrites.1 h
  rw [c.cycle_eq_turn.1]
  unfold turn at hm ⊢
  generalize c.tickHardware = d at hm ⊢
  exact Cpu.tick_of_writes d.cpu d.memory (List.mem_filterMap.2 ⟨_, hm, rfl⟩)
    (UInt16.le_trans (by decide) ha)

/-- What is written beyond the stack in a cycle the processor writes in its turn: entering an NMI,
it writes to the stack only. -/
theorem mem_turn_of_write {address : UInt16} {v : UInt8}
    (h : .write address v ∈ c.accessesOf .cycle) (ha : 0x200 ≤ address) :
    .write address v ∈ c.turn.2.accesses := by
  rw [accessesOf, List.mem_append, List.mem_reverse] at h
  unfold turn
  generalize c.tickHardware = d at h ⊢
  rcases h with h | h
  · have hn : .write address v ∈
        (c.cpu.nmi ({ bus := c.memory.tickPpu.takeNmi.2 } : Recorded Memory)).2.accesses := by
      split at h
      · exact List.mem_reverse.1 h
      · cases h
    have hs := Cpu.inStackPage_of_stackPath (Cpu.stackPath_nmi c.cpu _) rfl
      (List.mem_filterMap.2 ⟨_, hn, rfl⟩)
    rw [Bus.not_inStackPage ha] at hs
    cases hs
  · exact h

/-- A reset leaves the cartridge. -/
theorem board_reset (c : Console) : c.reset.memory.board = c.memory.board := by
  rw [reset_eq]
  rfl

/-! ### Three cycles after a write the board listens

However the console has been used, the silence of the board is one of three cycles at most: a cycle
shortens it, and only a write to program ROM brings it back to three.  An instruction that writes
there keeps the processor waiting for as long. -/

/-- The serial board listens again in three cycles. -/
def ListensSoon (c : Console) : Prop := c.memory.board.SilentFor Mmc1.lockoutCycles

/-- In a cycle the lockout runs down, and a store of the processor starts one of three cycles at
most. -/
theorem ListensSoon.cycle (h : c.ListensSoon) : c.cycle.2.ListensSoon := by
  obtain ⟨writes, hp, -⟩ := Cpu.storePath_tick c.tickHardware.cpu c.tickHardware.memory
  rw [← memory_cycle_eq] at hp
  refine Memory.silentFor_path hp ?_ (Nat.le_refl _)
  exact (SilentFor.unmoved (SilentFor.tick h) c.unmoved_tickHardware).mono (Nat.sub_le ..)

/-- Of what the host can ask for only a write reaches the board, and it starts a lockout of three
cycles at most. -/
theorem ListensSoon.call (h : c.ListensSoon) (x : Call) : (c.call x).ListensSoon := by
  cases x with
  | cycle => exact h.cycle
  | read address =>
    show (c.memory.read address).2.board.SilentFor _
    rw [Memory.board_read]
    exact h
  | write address v => exact Memory.silentFor_write h (Nat.le_refl _) address v
  | hold buttons => exact h
  | clearSamples => exact h

/-- A reset, an image and whatever the host asks for keep the bound, so it holds of every reachable
console. -/
theorem invariant_listensSoon : Invariant ListensSoon where
  cycle h := h.cycle
  finishFrame h := h
  insert h c := by
    rw [ListensSoon, board_reset]
    exact Board.silentFor_ofCartridge h _
  reset {c} h := by
    rw [ListensSoon, board_reset]
    exact h
  call h x := h.call x
  setCpu h _ := h

/-- **Nothing that the host can do keeps the serial board from listening for longer than three
cycles.** -/
theorem Reachable.listensSoon (h : c.Reachable) : c.ListensSoon :=
  invariant_listensSoon.of_reachable h

/-- The serial board listens again when the processor has its next turn. -/
def Rests (c : Console) : Prop := c.memory.board.SilentFor c.cpu.remaining

/-- **A cycle keeps it so.** -/
theorem Rests.cycle (h : c.Rests) : c.cycle.2.Rests := by
  have hb : c.tickHardware.memory.board.SilentFor (c.cpu.remaining - 1) :=
    h.tick.unmoved c.unmoved_tickHardware
  obtain ⟨-, hr, hm⟩ | ⟨hz, -⟩ := c.cycle_waits_or_acts
  · -- the processor waits for one of its cycles, as the board does, or for a new charge
    rw [Rests, hm]
    exact hb.mono (by omega)
  · have hm := c.cycle_eq_turn.2
    obtain ⟨-, hu⟩ | ⟨address, v, hw, hu⟩ := c.moved_turn
    · rw [Rests, hm]
      exact (hb.mono (by omega)).unmoved hu
    · -- a store: the board is silent for three cycles, and the processor waits for as many
      have hv : (address, v) ∈ romWrites c.turn.2.accesses := by
        rw [hw]
        exact List.mem_singleton_self _
      have hr := (three_le_remaining hv).2
      rw [Rests, hm]
      exact ((hb.mono (by omega)).move hr address v).unmoved hu

/-- So it is kept by any run, whatever it waits for. -/
theorem kept_rests : Kept Rests where
  cycle h := h.cycle
  finishFrame h := h

/-! ### Runs in which the host does not write to program ROM -/

/-- The consoles that have just been reset. -/
inductive Fresh : Console → Prop where
  | ofCartridge {cartridge : Cartridge} {settings : Settings} {c : Console}
      (h : Console.ofCartridge cartridge settings = .ok c) : Fresh c
  | load {c : Console} {image : Array UInt8} (h : c.Reachable) (ho : (c.load image).1 = .ok ()) :
      Fresh (c.load image).2
  | reset {c : Console} (h : c.Reachable) : Fresh c.reset

/-- A console that has just been reset is reachable, whichever way it came to be. -/
theorem Fresh.reachable (h : c.Fresh) : c.Reachable := by
  cases h with
  | ofCartridge h => exact .ofCartridge h
  | load h _ => exact h.load _
  | reset h => exact h.reset

/-- After a reset the processor waits for its entry sequence. -/
theorem Fresh.remaining (h : c.Fresh) : c.cpu.remaining = Cpu.entryCycles := by
  cases h with
  | ofCartridge h =>
    unfold Console.ofCartridge at h
    split at h
    · obtain rfl := Except.ok.inj h
      rfl
    · cases h
  | @load c image h ho =>
    unfold Console.load at ho ⊢
    split at ho
    · rfl
    · cases ho
  | reset h => rfl

/-- After a reset the processor waits for longer than the board can be silent. -/
theorem Fresh.rests (h : c.Fresh) : c.Rests := by
  rw [Rests, h.remaining]
  exact SilentFor.mono h.reachable.listensSoon (by decide)

/-- The consoles that can be come to from a reset, if the host does not write. -/
inductive Unwritten : Console → Prop where
  | fresh {c : Console} (h : c.Fresh) : Unwritten c
  | call {c : Console} (x : Call) (hx : x.isWrite = false) (h : Unwritten c) : Unwritten (c.call x)
  | stepInstruction {c : Console} (h : Unwritten c) : Unwritten c.stepInstruction.console
  | runFrame {c : Console} (h : Unwritten c) : Unwritten c.runFrame.console
  | runFrames {c : Console} (n : Nat) (h : Unwritten c) : Unwritten (c.runFrames n).console

/-- **The serial board listens again when the processor has its next turn**, if the host does not
write. -/
theorem Unwritten.rests (h : c.Unwritten) : c.Rests := by
  induction h with
  | fresh h => exact h.rests
  | @call c x hx _ ih =>
    cases x with
    | cycle => exact ih.cycle
    | read address =>
      show (c.memory.read address).2.board.SilentFor c.cpu.remaining
      rwa [Memory.board_read]
    | write address v => cases hx
    | hold buttons => exact ih
    | clearSamples => exact ih
  | stepInstruction _ ih => exact kept_rests.runsTo (runsTo_stepInstruction _) ih
  | runFrame _ ih => exact kept_rests.runFrame ih
  | runFrames n _ ih => exact kept_rests.runFramesFrom ih 0 n

/-- Any number of calls that write nothing lead from one such console to another. -/
theorem Unwritten.after (h : c.Unwritten) {calls : List Call}
    (hw : ∀ x ∈ calls, x.isWrite = false) : (c.after calls).Unwritten := by
  induction calls generalizing c with
  | nil => exact h
  | cons x rest ih =>
    exact ih (h.call x (hw x (List.mem_cons_self ..))) fun y hy => hw y (List.mem_cons_of_mem _ hy)

/-- **No store is swallowed.**  Take a console with a serial board that can be come to from a reset
if the host does not write.  The board does not listen for no more cycles than the processor has to
wait for.  So when the processor has its turn and nothing to wait for, the board listens; and every
byte that the processor writes to program ROM in a cycle is taken by the board as it was before. -/
theorem stores_are_taken (c : Console) (h : c.Unwritten) (hn : c.memory.board.number = 1) :
    ∃ m, c.memory.board.wiring = .mmc1 m ∧ m.lockout ≤ c.cpu.remaining ∧
      (c.tickHardware.cpu.remaining = 0 →
        m.lockout = 0 ∧ c.tickHardware.memory.board.wiring = .mmc1 m) ∧
      ∀ address v, .write address v ∈ c.accessesOf .cycle → 0x8000 ≤ address →
        ∃ m', c.cycle.2.memory.board.wiring = .mmc1 m' ∧ m.Takes address v m' := by
  obtain ⟨m, hm, hl⟩ := h.rests hn
  have ht : c.tickHardware.cpu.remaining = 0 →
      m.lockout = 0 ∧ c.tickHardware.memory.board.wiring = .mmc1 m := by
    intro hr
    rw [remaining_tickHardware] at hr
    have hz : m.lockout = 0 := by omega
    refine ⟨hz, ?_⟩
    rw [c.unmoved_tickHardware.wiring, Board.tick, hm]
    dsimp only
    rw [if_pos hz, hm]
  refine ⟨m, hm, hl, ht, fun address v hw ha => ?_⟩
  have hw := Memory.mem_romWrites.2 ⟨mem_turn_of_write hw (UInt16.le_trans (by decide) ha), ha⟩
  obtain ⟨hz, hb⟩ := ht (three_le_remaining hw).1
  obtain ⟨hr, -⟩ | ⟨_, _, hr, hu⟩ := c.moved_turn
  · rw [hr] at hw
    cases hw
  · rw [hr] at hw
    cases List.mem_singleton.1 hw
    refine ⟨m.write address v, ?_, Mmc1.takes_write hz address v⟩
    rw [c.cycle_eq_turn.2, hu.wiring, Board.move, hb]
    rfl

/-- A console with a serial board and `STA $8000` in its memory, when the processor is about to
carry this out. -/
def storing : Console :=
  (((ofBoard .blankSerial {}).write 0x0000 0x8D).write 0x0002 0x80).reset.after (cycles 7)

/-- Since its reset the host has asked it for cycles only. -/
theorem unwritten_storing : storing.Unwritten := by
  have h : Console.ofCartridge (.blank 0x10) {} = .ok (ofBoard .blankSerial {}) := by
    rw [Console.ofCartridge, Board.ofCartridge_blankSerial]
  have hr := ((Reachable.ofCartridge h).call (.write 0x0000 0x8D)).call (.write 0x0002 0x80)
  exact (Unwritten.fresh (.reset hr)).after (by decide)

/-- The program begins at address zero. -/
theorem storing_eq : storing =
    (({ cpu := { remaining := 7, total := 7 }
        memory := (((ofBoard .blankSerial {}).write 0x0000 0x8D).write 0x0002 0x80).memory.reset } :
      Console).after (cycles 7)) := by
  have hb : (((ofBoard .blankSerial {}).write 0x0000 0x8D).write 0x0002 0x80).memory.board =
    .blankSerial := rfl
  rw [storing, reset_eq, hb, Board.readCpu_blankSerial (by decide),
    Board.readCpu_blankSerial (by decide)]
  rfl

/-- The store is taken. -/
theorem stores_are_taken_storing :
    storing.Unwritten ∧ storing.memory.board.number = 1 ∧
      .write 0x8000 0 ∈ storing.accessesOf .cycle ∧
      ∃ m m', storing.memory.board.wiring = .mmc1 m ∧
        storing.cycle.2.memory.board.wiring = .mmc1 m' ∧ m.Takes 0x8000 0 m' := by
  have hn : storing.memory.board.number = 1 := by
    rw [storing_eq]
    decide +kernel
  have hw : .write 0x8000 0 ∈ storing.accessesOf .cycle := by
    rw [storing_eq]
    decide +kernel
  obtain ⟨m, hm, -, -, ht⟩ := stores_are_taken storing unwritten_storing hn
  obtain ⟨m', hm', ht⟩ := ht 0x8000 0 hw (by decide)
  exact ⟨unwritten_storing, hn, hw, m, m', hm, hm', ht⟩

end Console
end Famicom
