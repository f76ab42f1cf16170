/-
# The states of the console

What the host can do with a console: put a cartridge in, reset it, run it in one of the ways that
there are, do something between two cycles, and put the processor into whatever state it likes.  It
cannot lay hands on the picture unit.  So in every console that can be come to the raster stands in
a frame (`Console.Reachable.inFrame`).
-/

import Famicom.Proofs.Board.Blank
import Famicom.Proofs.Console.Scan
import Famicom.Proofs.Memory.Decode

namespace Famicom
namespace Console

/-- The consoles that can be come to. -/
inductive Reachable : Console → Prop where
  | ofCartridge {cartridge : Cartridge} {settings : Settings} {c : Console}
      (h : Console.ofCartridge cartridge settings = .ok c) : Reachable c
  | load {c : Console} (image : Array UInt8) (h : Reachable c) : Reachable (c.load image).2
  | reset {c : Console} (h : Reachable c) : Reachable c.reset
  | call {c : Console} (x : Call) (h : Reachable c) : Reachable (c.call x)
  | stepInstruction {c : Console} (h : Reachable c) : Reachable c.stepInstruction.console
  | runFrame {c : Console} (h : Reachable c) : Reachable c.runFrame.console
  | runFrames {c : Console} (n : Nat) (h : Reachable c) : Reachable (c.runFrames n).console
  | setCpu {c : Console} (cpu : Cpu) (h : Reachable c) : Reachable { c with cpu }

/-- Calls lead from a reachable console to a reachable one. -/
theorem Reachable.after {c : Console} (h : c.Reachable) (calls : List Call) :
    (c.after calls).Reachable := by
  induction calls generalizing c with
  | nil => exact h
  | cons x rest ih => exact ih (h.call x)

variable {c : Console}

/-- A condition that holds once a cartridge has been put in, and that nothing ends which the host
can do. -/
structure Invariant (P : Console → Prop) : Prop extends Kept P where
  insert {cartridge : Cartridge} {board : Board} (h : Board.ofCartridge cartridge = .ok board)
    (c : Console) :
    P (Console.reset { c with memory := .ofBoard board c.settings.sampleRate })
  reset {c : Console} (h : P c) : P c.reset
  call {c : Console} (h : P c) (x : Call) : P (c.call x)
  setCpu {c : Console} (h : P c) (cpu : Cpu) : P { c with cpu }

variable {P : Console → Prop}

/-- If the image is refused nothing has changed, and otherwise another cartridge is in. -/
theorem Invariant.load (k : Invariant P) (h : P c) (image : Array UInt8) : P (c.load image).2 := by
  unfold Console.load boardOf
  cases Cartridge.parse image with
  | error f => exact h
  | ok cartridge =>
    dsimp only [bind, Except.bind]
    cases hb : Board.ofCartridge cartridge with
    | error f => exact h
    | ok board => exact k.insert hb c

/-- **Such a condition holds in every console that can be come to.** -/
theorem Invariant.of_reachable (k : Invariant P) (h : c.Reachable) : P c := by
  induction h with
  | @ofCartridge cartridge settings c h =>
    unfold Console.ofCartridge at h
    split at h
    · rename_i board hb
      obtain rfl := Except.ok.inj h
      exact k.insert hb
        { cpu := { decimalMode := settings.decimalMode }, memory := .ofBoard board 0, settings }
    · cases h
  | load image _ ih => exact k.load ih image
  | reset _ ih => exact k.reset ih
  | call x _ ih => exact k.call ih x
  | stepInstruction _ ih => exact k.runsTo (runsTo_stepInstruction _) ih
  | runFrame _ ih => exact k.runFrame ih
  | runFrames n _ ih => exact k.runFramesFrom ih 0 n
  | setCpu cpu _ ih => exact k.setCpu ih cpu

/-- After a reset the raster stands in its first dot. -/
theorem inFrame_reset (c : Console) : c.reset.InFrame :=
  (⟨by decide, by decide⟩ : ({} : Ppu.Raster).InFrame)

/-- What the host does between two cycles does not move the raster. -/
theorem InFrame.call (h : c.InFrame) (x : Call) : (c.call x).InFrame := by
  cases x with
  | cycle => exact h.cycle
  | read address =>
    rw [InFrame, standing] at h ⊢
    rwa [← (Memory.seen_read c.memory address).raster] at h
  | write address v =>
    have hs : Memory.Logged.Scanned c.standing [] { memory := c.memory } := ⟨rfl, rfl, rfl⟩
    rw [InFrame] at h ⊢
    rwa [← (hs.write address v).raster] at h
  | hold buttons => exact h
  | clearSamples => exact h

/-- In every reachable console the raster is inside a frame. -/
theorem invariant_inFrame : Invariant InFrame where
  cycle h := h.cycle
  finishFrame h := h
  insert _ _ := inFrame_reset _
  reset _ := inFrame_reset _
  call h x := h.call x
  setCpu h _ := h

/-- **In every console that can be come to the raster stands in a frame.** -/
theorem Reachable.inFrame (h : c.Reachable) : c.InFrame := invariant_inFrame.of_reachable h

/-- What the hardware does in its share of a cycle can be done with an address space. -/
theorem reachable_tickHardware (h : c.memory.Reachable) : c.tickHardware.memory.Reachable := by
  have hn : c.memory.tickPpu.takeNmi.2.Reachable := (h.move .tickPpu).move .takeNmi
  have rest {m : Memory} (hm : m.Reachable) :
      m.tickPpu.tickPpu.tickApu.tickBoard.takeStall.2.Reachable :=
    ((((hm.move .tickPpu).move .tickPpu).move .tickApu).move .tickBoard).move .takeStall
  unfold tickHardware
  dsimp only
  split
  · obtain ⟨writes, hp, -⟩ := Cpu.stackPath_nmi c.cpu c.memory.tickPpu.takeNmi.2
    exact rest (hn.path hp)
  · exact rest hn

/-- A cycle is moves of the address space: those of the hardware, then the accesses of the
processor. -/
theorem reachable_cycle (h : c.memory.Reachable) : c.cycle.2.memory.Reachable := by
  obtain ⟨writes, hp, -⟩ := Cpu.storePath_tick c.tickHardware.cpu c.tickHardware.memory
  rw [memory_cycle_eq]
  exact (reachable_tickHardware h).path hp

/-- At a reset the processor reads where to begin. -/
theorem reachable_reset (h : c.memory.Reachable) : c.reset.memory.Reachable := by
  have hp : Bus.Path c.memory.reset [] c.reset.memory :=
    Bus.Path.readWord c.memory.reset Cpu.resetVector
  exact h.reset.path hp

/-- Whatever a host does with the console, its address space has come to where it is by moves of an
address space. -/
theorem invariant_memory : Invariant fun c => c.memory.Reachable where
  cycle h := reachable_cycle h
  finishFrame h := h.move .clearFrameReady
  insert _ _ := reachable_reset (.ofBoard _ _)
  reset h := reachable_reset h
  call {c} h x := by
    cases x with
    | cycle =>
      simp only [Console.call]
      exact reachable_cycle h
    | read address => exact h.move (.read address)
    | write address v => exact h.move (.write address v)
    | hold buttons => exact h.move (.hold buttons)
    | clearSamples => exact h.move .clearSamples
  setCpu h _ := h

/-- **In every console that can be come to** the address space can be come to, so that the delta
modulation channel reads program ROM. -/
theorem Reachable.memory (h : c.Reachable) : c.memory.Reachable := invariant_memory.of_reachable h

/-- A console with a blank cartridge in it, whose processor is held up for some frames. -/
def held : Console :=
  { ofBoard .blank {} with cpu := (ofBoard .blank {}).cpu.stall 100000 }

/-- Handing the console another processor leaves it reachable. -/
theorem reachable_held : held.Reachable := by
  have h : Console.ofCartridge (.blank 0) {} = .ok (ofBoard .blank {}) := by
    rw [Console.ofCartridge, Board.ofCartridge_blank]
  exact (Reachable.ofCartridge h).setCpu _

/-- Seven of the cycles are those of the reset. -/
theorem remaining_held : held.cpu.remaining = 100007 := rfl

end Console
end Famicom
