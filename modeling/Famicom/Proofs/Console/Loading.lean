/-
# Putting a cartridge in

A console keeps its settings, whatever is done with it, and its processor goes on obeying the D
flag or not as they say (`Console.Operated.obeysSettings`): nothing but a hand laid on the
processor could change that.  It is the one thing about the processor that a reset leaves alone,
and the address space is made anew around a cartridge that is put in.  So a console into which
another cartridge has been put is a new one with that cartridge and the same settings, and if the
image is refused it is what it was (`Console.load_all_or_nothing`).
-/

import Famicom.Proofs.Board.Blank
import Famicom.Proofs.Console.Loop

namespace Famicom
namespace Console

/-- The consoles that the host can come to with what there is to do with a console.  It does not lay
hands on the processor. -/
inductive Operated : Console → Prop where
  | ofCartridge {cartridge : Cartridge} {settings : Settings} {c : Console}
      (h : Console.ofCartridge cartridge settings = .ok c) : Operated c
  | load {c : Console} (image : Array UInt8) (h : Operated c) : Operated (c.load image).2
  | reset {c : Console} (h : Operated c) : Operated c.reset
  | call {c : Console} (x : Call) (h : Operated c) : Operated (c.call x)
  | stepInstruction {c : Console} (h : Operated c) : Operated c.stepInstruction.console
  | runFrame {c : Console} (h : Operated c) : Operated c.runFrame.console
  | runFrames {c : Console} (n : Nat) (h : Operated c) : Operated (c.runFrames n).console

/-- The processor obeys the D flag if the settings say so. -/
def ObeysSettings (c : Console) : Prop := c.cpu.decimalMode = c.settings.decimalMode

variable {c : Console}

/-- No cycle makes the processor obey the D flag, or keeps it from it. -/
theorem decimalMode_cycle (c : Console) : c.cycle.2.cpu.decimalMode = c.cpu.decimalMode := by
  obtain ⟨r, hr⟩ := c.charge_logHardware
  rw [cpu_cycle, logCycle]
  obtain ⟨_, h⟩ | ⟨_, s, k, _, h⟩ | ⟨_, n, s, k, _, _, h⟩ | ⟨fault, k, _, h⟩ :=
    Cpu.tickLogged_cases c.logHardware.1 c.logHardware.2
  all_goals
    rw [h]
    dsimp only
    rw [hr]

/-- No cycle changes a setting. -/
theorem settings_cycle (c : Console) : c.cycle.2.settings = c.settings := by rw [logCycle_eq]

/-- So a console that obeys its settings does so after a cycle. -/
theorem ObeysSettings.cycle (h : c.ObeysSettings) : c.cycle.2.ObeysSettings := by
  rw [ObeysSettings, decimalMode_cycle, settings_cycle]
  exact h

/-- What the host does between two cycles does not reach the processor. -/
theorem ObeysSettings.call (h : c.ObeysSettings) (x : Call) : (c.call x).ObeysSettings := by
  cases x with
  | cycle => exact h.cycle
  | read | write | hold | clearSamples => exact h

/-- And after any run. -/
theorem kept_obeysSettings : Kept ObeysSettings where
  cycle h := h.cycle
  finishFrame h := h

/-- **The processor obeys the D flag if the settings say so**, as long as no hand is laid on it. -/
theorem Operated.obeysSettings (h : c.Operated) : c.ObeysSettings := by
  induction h with
  | @ofCartridge cartridge settings c h =>
    unfold Console.ofCartridge at h
    split at h
    · obtain rfl := Except.ok.inj h
      rfl
    · cases h
  | load image _ ih =>
    unfold Console.load
    split
    · exact ih
    · exact ih
  | reset _ ih => exact ih
  | call x _ ih => exact ih.call x
  | stepInstruction _ ih => exact kept_obeysSettings.runsTo (runsTo_stepInstruction _) ih
  | runFrame _ ih => exact kept_obeysSettings.runFrame ih
  | runFrames n _ ih => exact kept_obeysSettings.runFramesFrom ih 0 n

/-- A reset leaves nothing of the processor but whether it obeys the D flag. -/
theorem reset_eq_ofBoard (h : c.ObeysSettings) (board : Board) :
    reset { c with memory := .ofBoard board c.settings.sampleRate } =
      ofBoard board c.settings := by
  unfold ofBoard reset Cpu.reset
  dsimp only
  rw [h]

/-- **Putting a cartridge in is all or nothing.**  If the image gives no cartridge, or the
cartridge no board, that is what is answered, and nothing has changed.  If not, the console that is
left is the one that is made with the cartridge and the same settings. -/
theorem load_all_or_nothing (h : c.Operated) (image : Array UInt8) :
    match Cartridge.parse image with
    | .error f => c.load image = (.error (.cartridge f), c)
    | .ok cartridge =>
      match Board.ofCartridge cartridge with
      | .error f => c.load image = (.error (.cartridge f), c)
      | .ok _ => ∃ new, Console.ofCartridge cartridge c.settings = .ok new ∧
          c.load image = (.ok (), new) := by
  unfold load boardOf
  cases Cartridge.parse image with
  | error f => rfl
  | ok cartridge =>
    dsimp only [bind, Except.bind]
    cases hb : Board.ofCartridge cartridge with
    | error f => rfl
    | ok board =>
      refine ⟨ofBoard board c.settings, ?_, ?_⟩
      · rw [Console.ofCartridge, hb]
      · rw [← reset_eq_ofBoard h.obeysSettings board]

/-- A console that runs and obeys the D flag refuses an empty image, and becomes a new one with a
blank cartridge. -/
theorem load_all_or_nothing_blank :
    let c := (ofBoard .blank { decimalMode := true }).cycle.2
    let image := Cartridge.blankHeader ++ (Cartridge.blank 0).prg.bytes
    c.Operated ∧ c.load #[] = (.error (.cartridge (.truncated 16 0)), c) ∧
      c.load image = (.ok (), ofBoard .blank { decimalMode := true }) := by
  intro c image
  have hb : Console.ofCartridge (.blank 0) { decimalMode := true } =
      .ok (ofBoard .blank { decimalMode := true }) := by
    rw [Console.ofCartridge, Board.ofCartridge_blank]
  have h : c.Operated := (Operated.ofCartridge hb).call .cycle
  have hp : Cartridge.parse image = .ok (.blank 0) := Cartridge.parse_blank Array.size_replicate
  have hs : c.settings = { decimalMode := true } := settings_cycle _
  -- what the console and the image are made of is of no more use
  clear_value c image
  have hl := load_all_or_nothing h image
  rw [hp] at hl
  dsimp only at hl
  rw [Board.ofCartridge_blank, hs, hb] at hl
  obtain ⟨new, hn, hl⟩ := hl
  obtain rfl := Except.ok.inj hn
  exact ⟨h, load_all_or_nothing h #[], hl⟩

end Console
end Famicom
