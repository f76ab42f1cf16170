/-
# A session

What the program does with its options and the image of a cartridge: run the frames asked for,
with the buttons held and the samples dropped after each frame, and print what is wanted.  The
answer keeps what was heard up to a fault beside the fault.
-/

import Famicom.CommandLine.Options
import Famicom.CommandLine.Report
import Famicom.Console.Notice
import Famicom.Console.Run

namespace Famicom
namespace CommandLine

/-- What a session leaves. -/
structure Session where
  /-- What is printed. -/
  printed : String := ""
  /-- What was heard, in order. -/
  notices : List Notice := []
  /-- Why it ended early, if it did. -/
  fault? : Option Fault := none

/-- What running frames leaves. -/
structure Drained where
  console : Console
  /-- The number of samples that were dropped. -/
  samples : Nat
  /-- What was heard, the last in front. -/
  heard : List Notice
  fault? : Option Fault := none

/-- Run `n` frames and drop the samples after each.  A listener, if there is one, hears what is
reported. -/
def runFrames (listener : Option Notice.Level) (c : Console) (samples : Nat)
    (heard : List Notice) : Nat → Drained
  | 0 => { console := c, samples, heard }
  | n + 1 =>
    let hear : Nat → List Notice :=
      match listener with
      | none => fun _ => heard
      | some l => fun cycles => Console.hear l heard cycles c
    let run := c.runFrame
    let heard := hear run.cycles
    match run.fault? with
    | some f => { console := run.console, samples, heard, fault? := some f }
    | none =>
      let samples := samples + run.console.samples.size
      runFrames listener run.console.clearSamples samples heard n

/-- What is printed of a console at the end. -/
def printed (o : Options) (c : Console) : String :=
  (if o.dumpCpu then cpuReport c.cpu else "") ++ if o.dumpPpu then ppuReport c.memory.ppu else ""

/-- Run a session with the image of a cartridge. -/
def run (listener : Option Notice.Level) (o : Options) (image : Array UInt8) : Session :=
  let hears (n : Notice) : List Notice := [n].filter fun n => listener.any n.heardAt
  match Cartridge.parse image with
  | .error f => { fault? := some (.cartridge f) }
  | .ok cartridge =>
    let loaded := hears cartridge.loadedNotice
    match Console.ofCartridge cartridge { sampleRate := o.sampleRate } with
    | .error f => { notices := loaded, fault? := some f }
    | .ok console =>
      let running := hears ⟨.info, "running " ++ o.frames.repr ++ " frames"⟩
      let before := loaded ++ hears console.resetNotice ++ running
      let d := runFrames listener (console.hold o.buttons) 0 [] o.frames
      let notices := before ++ d.heard.reverse
      match d.fault? with
      | some f => { notices, fault? := some f }
      | none =>
        let completed := hears ⟨.info,
          "completed " ++ d.console.frames.repr ++ " frames, " ++ d.samples.repr ++
            " audio samples"⟩
        { printed := printed o d.console, notices := notices ++ completed }

end CommandLine
end Famicom
