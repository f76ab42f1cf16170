/-
# The sample rate is not to be noticed

The number of samples in a second is settled when a console is made.  The resampler is the one part
of the machine that is told of it, and two consoles that are told of different rates are twins in
the sense of `Console.Twins`, with no relation at all between their resamplers.  They stay so
whatever the host does (`Console.Twins.serve`): a reset makes the resampler anew, and so does
another cartridge, but neither asks it for anything.  So no answer that the host is given depends
on the rate (`Console.sampleRate_unobserved`).
-/

import Famicom.Proofs.Console.Twin

namespace Famicom

open Apu (Resampler)
open Bus (Alike)

/-- There need not be any relation between two resamplers. -/
def Apu.Resampler.Unrelated (_ _ : Resampler) : Prop := True

/-- Any two resamplers are in no relation, and stay so. -/
theorem Apu.Resampler.lasting_unrelated : Resampler.Lasting Unrelated := fun _ _ _ _ => trivial

namespace Memory.Twins

open Apu.Resampler (Unrelated)

variable {Q : Resampler → Resampler → Prop} {m k : Memory}

/-- Address spaces around the same board are twins at power-on. -/
theorem ofBoard (board : Board) (rate rate' : Nat) :
    Twins Unrelated (.ofBoard board rate) (.ofBoard board rate') :=
  ⟨.ofRate rate', rfl, trivial⟩

/-- A reset leaves twins, each with a new resampler for its own rate. -/
theorem reset (h : Twins Q m k) : Twins Unrelated m.reset k.reset := by
  obtain ⟨r, rfl, -⟩ := h
  exact ⟨.ofRate r.rate, rfl, trivial⟩

/-- Dropping the samples leaves twins, whatever each had. -/
theorem clearSamples (h : Twins Q m k) : Twins Unrelated m.clearSamples k.clearSamples := by
  obtain ⟨r, rfl, -⟩ := h
  exact ⟨r.clear, rfl, trivial⟩

end Memory.Twins

namespace Console

open Apu.Resampler (Unrelated lasting_unrelated)

/-- What a host can ask of a console. -/
inductive Request where
  | call (x : Call)
  | runFrame
  | runFrames (n : Nat)
  | stepInstruction
  | reset
  | load (image : Array UInt8)
deriving DecidableEq, Repr

/-- What a console answers. -/
inductive Answer where
  | done
  | byte (v : UInt8)
  | fault (f : Fault)
deriving DecidableEq, Repr

/-- The answer to a request that succeeds or fails. -/
def Answer.ofExcept : Except Fault Unit → Answer
  | .ok _ => done
  | .error f => fault f

/-- The answer to a request to run. -/
def Answer.ofRun (r : Run) : Answer := r.fault?.elim done fault

/-- Do what the host asks. -/
def serve (c : Console) : Request → Answer × Console
  | .call .cycle => (.ofExcept (c.cycle.1.mapError .cpu), c.cycle.2)
  | .call (.read address) => (.byte (c.read address).1, (c.read address).2)
  | .call x => (.done, c.call x)
  | .runFrame => (.ofRun c.runFrame, c.runFrame.console)
  | .runFrames n => (.ofRun (c.runFrames n), (c.runFrames n).console)
  | .stepInstruction => (.ofRun c.stepInstruction, c.stepInstruction.console)
  | .reset => (.done, c.reset)
  | .load image => (.ofExcept (c.load image).1, (c.load image).2)

/-- Do what the host asks, one request after the other, whatever the answers are. -/
def serveAll (c : Console) : List Request → List Answer × Console
  | [] => ([], c)
  | x :: rest =>
    let (answer, c) := c.serve x
    let (answers, c) := c.serveAll rest
    (answer :: answers, c)

/-- The console set up for another number of samples in a second. -/
def withSampleRate (c : Console) (rate : Nat) : Console :=
  c.withSettings { c.settings with sampleRate := rate }

namespace Twins

variable {s t : Settings} {c d : Console}

/-- A reset does the same to twins. -/
theorem reset (h : Twins Unrelated s t c d) : Twins Unrelated s t c.reset d.reset := by
  obtain ⟨cpu, m, frames, settings⟩ := c
  obtain ⟨cpu', k, frames', settings'⟩ := d
  obtain ⟨rfl, hm, rfl, hs⟩ := h
  obtain ⟨pc, m₁, k₁, em, ek, h₁⟩ := Memory.Twins.simulation.readWord hm.reset Cpu.resetVector
  unfold Console.reset Cpu.reset
  dsimp only
  rw [em, ek]
  exact ⟨rfl, h₁, rfl, hs⟩

/-- **Putting a cartridge in does the same to twins**: the image is accepted by both or by none. -/
theorem load (h : Twins Unrelated s t c d) (image : Array UInt8) :
    Alike (Twins Unrelated s t) (c.load image) (d.load image) := by
  unfold Console.load
  cases boardOf image with
  | error f => exact .intro _ h
  | ok board => exact .intro _ (reset ⟨h.cpu, .ofBoard board _ _, h.frames, h.settings⟩)

/-- Twins answer a request to run alike. -/
theorem answer_run {r r' : Run} (h : Run.Twins Unrelated s t r r') :
    Alike (Twins Unrelated s t) (Answer.ofRun r, r.console) (Answer.ofRun r', r'.console) := by
  unfold Answer.ofRun
  rw [h.fault]
  exact .intro _ h.console

/-- **Twins answer alike** whatever the host asks, and stay twins. -/
theorem serve (h : Twins Unrelated s t c d) (x : Request) :
    Alike (Twins Unrelated s t) (c.serve x) (d.serve x) := by
  cases x with
  | call x =>
    cases x with
    | cycle =>
      obtain ⟨result, c', d', ec, ed, h'⟩ := h.cycle lasting_unrelated
      unfold Console.serve
      dsimp only
      rw [ec, ed]
      exact .intro _ h'
    | read address =>
      obtain ⟨v, c', d', ec, ed, h'⟩ := h.read address
      unfold Console.serve
      dsimp only
      rw [ec, ed]
      exact .intro _ h'
    | write address v => exact .intro _ (h.write address v)
    | hold buttons => exact .intro _ (h.hold buttons)
    | clearSamples => exact .intro _ ⟨h.cpu, h.memory.clearSamples, h.frames, h.settings⟩
  | runFrame => exact answer_run (h.runFrame lasting_unrelated)
  | runFrames n => exact answer_run (h.runFramesFrom lasting_unrelated 0 n)
  | stepInstruction => exact answer_run (h.stepInstruction lasting_unrelated)
  | reset => exact .intro _ h.reset
  | load image =>
    obtain ⟨result, c', d', ec, ed, h'⟩ := h.load image
    unfold Console.serve
    dsimp only
    rw [ec, ed]
    exact .intro _ h'

/-- **All requests are answered alike**, by induction over them. -/
theorem serveAll (h : Twins Unrelated s t c d) (requests : List Request) :
    Alike (Twins Unrelated s t) (c.serveAll requests) (d.serveAll requests) := by
  induction requests generalizing c d with
  | nil => exact .intro [] h
  | cons x rest ih =>
    obtain ⟨answer, c', d', ec, ed, h'⟩ := h.serve x
    obtain ⟨answers, c'', d'', ec', ed', h''⟩ := ih h'
    unfold Console.serveAll
    simp only [ec, ed, ec', ed']
    exact .intro _ h''

end Twins

/-- Consoles with the same board are twins when they are made, if only the rate is not the same. -/
theorem twins_ofBoard (board : Board) (s : Settings) (rate : Nat) :
    Twins Unrelated s { s with sampleRate := rate } (ofBoard board s)
      (ofBoard board { s with sampleRate := rate }) :=
  Twins.reset ⟨rfl, .ofBoard board _ _, rfl, rfl, rfl⟩

/-- **The sample rate is not to be noticed.**  Take two consoles made from one image, with settings
that differ in nothing but the number of samples in a second; if one cannot be made, the other
cannot, for the same reason.  Whatever the host asks of both, in whatever order, the answers are
the same, and the consoles that are left differ in nothing but the setting and the resampler. -/
theorem sampleRate_unobserved (image : Array UInt8) (s : Settings) (rate : Nat)
    (requests : List Request) :
    match ofImage image s with
    | .error f => ofImage image { s with sampleRate := rate } = .error f
    | .ok c => ∃ d, ofImage image { s with sampleRate := rate } = .ok d ∧
        (d.serveAll requests).1 = (c.serveAll requests).1 ∧
        ∃ r, (d.serveAll requests).2 =
          ((c.serveAll requests).2.withSampleRate rate).withResampler r := by
  unfold ofImage
  cases Cartridge.parse image with
  | error f => rfl
  | ok cartridge =>
    unfold ofCartridge
    dsimp only
    cases Board.ofCartridge cartridge with
    | error f => rfl
    | ok board =>
      obtain ⟨answers, c, d, ec, ed, h⟩ := (twins_ofBoard board s rate).serveAll requests
      obtain ⟨r, hd, -⟩ := h.eq_withResampler
      refine ⟨_, rfl, ?_, r, ?_⟩
      · rw [ec, ed]
      · rw [ec, ed, withSampleRate, h.settings.1]
        exact hd

end Console
end Famicom
