/-
# Consoles that differ in their resamplers

Two consoles that differ in nothing but their settings and their resamplers (`Console.Twins`) run
side by side.  A machine cycle leaves twins and has the same result on both
(`Console.Twins.cycle`), and so has a run, whatever it waits for, as long as it waits for something
that the twins have in common: it takes as many cycles on the one as on the other
(`Console.Run.Twins`).
-/

import Famicom.Proofs.Console.Loop
import Famicom.Proofs.Memory.Twin

namespace Famicom
namespace Console

open Apu (Resampler)
open Bus (Alike)

/-- Two consoles that differ in nothing but their settings, which are `s` and `t`, and their
resamplers, between which there is a relation. -/
structure Twins (Q : Resampler → Resampler → Prop) (s t : Settings) (c d : Console) : Prop where
  cpu : d.cpu = c.cpu
  memory : Memory.Twins Q c.memory d.memory
  frames : d.frames = c.frames
  settings : c.settings = s ∧ d.settings = t

/-- The console with another resampler. -/
def withResampler (c : Console) (r : Resampler) : Console :=
  { c with memory := c.memory.withResampler r }

/-- The console with other settings. -/
def withSettings (c : Console) (settings : Settings) : Console := { c with settings }

/-- Two runs that leave twins, in as many cycles and for the same reason. -/
structure Run.Twins (Q : Resampler → Resampler → Prop) (s t : Settings) (r r' : Run) : Prop where
  console : Console.Twins Q s t r.console r'.console
  cycles : r'.cycles = r.cycles
  fault : r'.fault? = r.fault?

variable {Q : Resampler → Resampler → Prop} {s t : Settings} {c d : Console}

namespace Twins

/-- What twins have in common is all but the resampler and the settings. -/
theorem eq_withResampler (h : Twins Q s t c d) :
    ∃ r, d = (c.withResampler r).withSettings t ∧ Q c.memory.apu.resampler r := by
  obtain ⟨cpu, memory, frames, settings⟩ := d
  obtain ⟨rfl, ⟨r, rfl, hq⟩, rfl, ⟨-, rfl⟩⟩ := h
  exact ⟨r, rfl, hq⟩

/-- The hardware's share of a cycle: an NMI is entered on both or on neither, and both are charged
the same. -/
theorem tickHardware (hQ : Resampler.Lasting Q) (h : Twins Q s t c d) :
    Twins Q s t c.tickHardware d.tickHardware := by
  obtain ⟨cpu, m, frames, settings⟩ := c
  obtain ⟨cpu', k, frames', settings'⟩ := d
  obtain ⟨rfl, hm, rfl, hs⟩ := h
  obtain ⟨nmi, m₁, k₁, em, ek, h₁⟩ := hm.tickPpu.takeNmi
  -- the processor may enter an NMI, and does so on both or on none
  obtain ⟨p, m₂, k₂, em', ek', h₂⟩ : Alike (Memory.Twins Q)
      (if nmi then cpu'.nmi m₁ else (cpu', m₁)) (if nmi then cpu'.nmi k₁ else (cpu', k₁)) := by
    cases nmi with
    | false => exact .intro cpu' h₁
    | true => exact Cpu.nmi_alike Memory.Twins.simulation h₁ cpu'
  obtain ⟨stolen, m₃, k₃, em'', ek'', h₃⟩ :=
    ((h₂.tickPpu.tickPpu.tickApu hQ).tickBoard).takeStall
  unfold Console.tickHardware
  simp only [em, ek, em', ek', em'', ek'']
  exact ⟨rfl, h₃, rfl, hs⟩

/-- The processor's share: it reads the same on both, so it does the same. -/
theorem tickCpu (h : Twins Q s t c d) : Alike (Twins Q s t) c.tickCpu d.tickCpu := by
  obtain ⟨cpu, m, frames, settings⟩ := c
  obtain ⟨cpu', k, frames', settings'⟩ := d
  obtain ⟨rfl, hm, rfl, hs⟩ := h
  obtain ⟨result, p, m₁, k₁, em, ek, h₁⟩ := Cpu.tick_alike Memory.Twins.simulation hm cpu'
  unfold Console.tickCpu
  simp only [em, ek]
  exact .intro result ⟨rfl, h₁, rfl, hs⟩

/-- **A machine cycle does the same to twins.** -/
theorem cycle (hQ : Resampler.Lasting Q) (h : Twins Q s t c d) :
    Alike (Twins Q s t) c.cycle d.cycle :=
  (h.tickHardware hQ).tickCpu

/-- A read has the same answer on twins. -/
theorem read (h : Twins Q s t c d) (address : UInt16) :
    Alike (Twins Q s t) (c.read address) (d.read address) := by
  obtain ⟨cpu, m, frames, settings⟩ := c
  obtain ⟨cpu', k, frames', settings'⟩ := d
  obtain ⟨hc, hm, hf, hs⟩ := h
  obtain ⟨v, m₁, k₁, em, ek, h₁⟩ := hm.read address
  unfold Console.read
  dsimp only at em ek ⊢
  rw [em, ek]
  exact .intro v ⟨hc, h₁, hf, hs⟩

/-- A write leaves twins. -/
theorem write (h : Twins Q s t c d) (address : UInt16) (v : UInt8) :
    Twins Q s t (c.write address v) (d.write address v) :=
  ⟨h.cpu, h.memory.write address v, h.frames, h.settings⟩

/-- Holding buttons leaves twins. -/
theorem hold (h : Twins Q s t c d) (b : UInt8) : Twins Q s t (c.hold b) (d.hold b) :=
  ⟨h.cpu, h.memory.hold b, h.frames, h.settings⟩

/-- **A call does the same to twins**, and succeeds on both or on none, if it is not to drop the
samples.
-/
theorem call (hQ : Resampler.Lasting Q) (h : Twins Q s t c d) {x : Call} (hx : x ≠ .clearSamples) :
    Twins Q s t (c.call x) (d.call x) ∧ (d.Succeeds x ↔ c.Succeeds x) := by
  cases x with
  | cycle =>
    obtain ⟨result, c', d', ec, ed, h'⟩ := h.cycle hQ
    rw [Console.call, Console.call, Succeeds, Succeeds, ec, ed]
    exact ⟨h', Iff.rfl⟩
  | read address =>
    obtain ⟨v, c', d', ec, ed, h'⟩ := h.read address
    rw [Console.call, Console.call, ec, ed]
    exact ⟨h', Iff.rfl⟩
  | write address v => exact ⟨h.write address v, Iff.rfl⟩
  | hold buttons => exact ⟨h.hold buttons, Iff.rfl⟩
  | clearSamples => exact absurd rfl hx

/-- Counting a frame leaves twins. -/
theorem finishFrame (h : Twins Q s t c d) : Twins Q s t c.finishFrame d.finishFrame :=
  ⟨h.cpu, h.memory.clearFrameReady, congrArg (· + 1) h.frames, h.settings⟩

/-- Twins wait for the same frame. -/
theorem awaitsFrame (h : Twins Q s t c d) : d.awaitsFrame = c.awaitsFrame := by
  obtain ⟨r, rfl, -⟩ := h.eq_withResampler
  rfl

/-- Twins have processors that wait alike. -/
theorem cpuWaits (h : Twins Q s t c d) : d.cpuWaits = c.cpuWaits := by
  rw [Console.cpuWaits, Console.cpuWaits, h.cpu]

/-- Twins have the same bound for an instruction. -/
theorem instructionBound (h : Twins Q s t c d) : d.instructionBound = c.instructionBound := by
  obtain ⟨r, rfl, -⟩ := h.eq_withResampler
  rfl

end Twins

section Runs

variable {goesOn : Console → Bool}

/-- **A loop of cycles does the same to twins** if it waits for what they have in common. -/
theorem Twins.cycleWhile (hQ : Resampler.Lasting Q)
    (hg : ∀ {c d}, Twins Q s t c d → goesOn d = goesOn c) (h : Twins Q s t c d) (bound n : Nat) :
    Run.Twins Q s t (cycleWhile goesOn bound n c) (cycleWhile goesOn bound n d) := by
  have hcd := hg h
  induction bound generalizing n c d with
  | zero =>
    rw [cycleWhile_zero, cycleWhile_zero, hcd]
    exact ⟨h, rfl, rfl⟩
  | succ bound ih =>
    cases hc : goesOn c with
    | false =>
      rw [cycleWhile_of_not hc, cycleWhile_of_not (hcd.trans hc)]
      exact ⟨h, rfl, rfl⟩
    | true =>
      have hd := hcd.trans hc
      obtain ⟨result, c', d', ec, ed, h'⟩ := h.cycle hQ
      cases result with
      | ok u =>
        rw [cycleWhile_of_ok hc ec, cycleWhile_of_ok hd ed]
        exact ih h' (n + 1) (hg h')
      | error f =>
        rw [cycleWhile_of_error hc ec, cycleWhile_of_error hd ed]
        exact ⟨h', rfl, rfl⟩

namespace Run.Twins

variable {r r' : Run}

/-- Twin runs have the same cycles and the same fault. -/
theorem split (h : Run.Twins Q s t r r') :
    ∃ c d n fault, r = ⟨c, n, fault⟩ ∧ r' = ⟨d, n, fault⟩ ∧ Console.Twins Q s t c d := by
  obtain ⟨d, n', fault'⟩ := r'
  obtain ⟨hc, rfl, rfl⟩ := h
  exact ⟨r.console, d, r.cycles, r.fault?, rfl, rfl, hc⟩

/-- A cycle more: where one run had stopped, so had the other. -/
theorem cycle (hQ : Resampler.Lasting Q) (h : Run.Twins Q s t r r') :
    Run.Twins Q s t r.cycle r'.cycle := by
  obtain ⟨c, d, n, fault, rfl, rfl, hc⟩ := h.split
  cases fault with
  | some f => exact ⟨hc, rfl, rfl⟩
  | none =>
    obtain ⟨result, c', d', ec, ed, h'⟩ := hc.cycle hQ
    cases result with
    | ok u =>
      rw [Run.cycle_of_ok ec, Run.cycle_of_ok ed]
      exact ⟨h', rfl, rfl⟩
    | error f =>
      rw [Run.cycle_of_error ec, Run.cycle_of_error ed]
      exact ⟨h', rfl, rfl⟩

/-- A loop goes on for the same number of cycles on both, if what it waits for is the same on
twins. -/
theorem andWhile (hQ : Resampler.Lasting Q)
    (hg : ∀ {c d}, Console.Twins Q s t c d → goesOn d = goesOn c) (h : Run.Twins Q s t r r')
    (bound : Nat) : Run.Twins Q s t (r.andWhile goesOn bound) (r'.andWhile goesOn bound) := by
  obtain ⟨c, d, n, fault, rfl, rfl, hc⟩ := h.split
  cases fault with
  | some f => exact ⟨hc, rfl, rfl⟩
  | none => exact hc.cycleWhile hQ hg bound n

end Run.Twins

/-- **A step of an instruction does the same to twins.** -/
theorem Twins.stepInstruction (hQ : Resampler.Lasting Q) (h : Twins Q s t c d) :
    Run.Twins Q s t c.stepInstruction d.stepInstruction := by
  unfold Console.stepInstruction
  rw [h.instructionBound]
  exact ((h.cycleWhile hQ cpuWaits _ 0).cycle hQ).andWhile hQ cpuWaits _

/-- **A run of a frame does the same to twins.** -/
theorem Twins.runFrame (hQ : Resampler.Lasting Q) (h : Twins Q s t c d) :
    Run.Twins Q s t c.runFrame d.runFrame := by
  have hr : Run.Twins Q s t { console := c } { console := d } := ⟨h, rfl, rfl⟩
  have hf := (hr.cycle hQ).andWhile hQ awaitsFrame frameBound
  unfold Console.runFrame
  generalize (Run.cycle { console := c }).andWhile Console.awaitsFrame frameBound = r at hf ⊢
  generalize (Run.cycle { console := d }).andWhile Console.awaitsFrame frameBound = r' at hf ⊢
  obtain ⟨c', d', n, fault, rfl, rfl, hc⟩ := hf.split
  cases fault with
  | some f => exact ⟨hc, rfl, rfl⟩
  | none => exact ⟨hc.finishFrame, rfl, rfl⟩

/-- Any number of frames, by induction: a frame that stops stops on both. -/
theorem Twins.runFramesFrom (hQ : Resampler.Lasting Q) (h : Twins Q s t c d) (cycles n : Nat) :
    Run.Twins Q s t (c.runFramesFrom cycles n) (d.runFramesFrom cycles n) := by
  induction n generalizing c d cycles with
  | zero => exact ⟨h, rfl, rfl⟩
  | succ n ih =>
    obtain ⟨c', d', k, fault, ec, ed, hc⟩ := (h.runFrame hQ).split
    cases fault with
    | none =>
      rw [runFramesFrom_of_ok ec, runFramesFrom_of_ok ed]
      exact ih hc _
    | some f =>
      rw [runFramesFrom_of_error ec, runFramesFrom_of_error ed]
      exact ⟨hc, rfl, rfl⟩

end Runs

end Console
end Famicom
