/-
# Dropping the samples

Samples are put at the end of a buffer that the machine never looks at, so when the host drops them
is its own affair.  A console whose samples have been dropped now and then and one that has kept
them are twins in the sense of `Console.Twins`, and the one that has kept them is ahead of the
other by what has been dropped (`Apu.Resampler.Ahead`), wherever the resampler stood between two
samples when it was dropped.  So nothing is lost and nothing is disturbed
(`Console.draining_loses_nothing`), and what the program counts when it runs frames and drops the
samples after each is what it would have found at the end.
-/

import Famicom.CommandLine.Session
import Famicom.Proofs.Console.Frame
import Famicom.Proofs.Console.Stolen
import Famicom.Proofs.Console.Twin

namespace Famicom

open Apu (Resampler)

namespace Apu.Resampler

/-- The second resampler has kept samples that have been dropped from the first. -/
def Ahead (dropped : List Float32) (r s : Resampler) : Prop :=
  s = { r with samples := dropped.toArray ++ r.samples }

/-- Nothing has been dropped where the resamplers are the same. -/
theorem ahead_nil (r : Resampler) : Ahead [] r r := by
  rw [Ahead, Array.empty_append]

/-- A resampler puts its samples at the end and never looks at them. -/
theorem lasting_ahead (dropped : List Float32) : Lasting (Ahead dropped) := by
  rintro r s level rfl
  unfold Ahead tick cyclesPerSample
  dsimp only
  split
  · rw [Array.push_append]
  · rfl

/-- Dropping the samples of the one puts them to those that were dropped before. -/
theorem Ahead.clear {dropped : List Float32} {r s : Resampler} (h : Ahead dropped r s) :
    Ahead (dropped ++ r.samples.toList) r.clear s := by
  subst h
  simp [Ahead, Resampler.clear]

end Apu.Resampler

namespace Console

open Apu.Resampler (Ahead ahead_nil lasting_ahead)

/-- The console with other samples. -/
def withSamples (c : Console) (samples : Array Float32) : Console :=
  c.withResampler { c.memory.apu.resampler with samples }

/-- The samples that are dropped in a call. -/
def droppedIn (c : Console) : Call → List Float32
  | .clearSamples => c.samples.toList
  | _ => []

namespace Twins

variable {dropped : List Float32} {s : Settings} {c d : Console}

/-- A console is its own twin. -/
theorem ahead_refl (c : Console) : Twins (Ahead []) c.settings c.settings c c :=
  ⟨rfl, ⟨c.memory.apu.resampler, rfl, ahead_nil _⟩, rfl, rfl, rfl⟩

/-- The samples are all there is between a console that has dropped some and one that has kept
them. -/
theorem eq_withSamples (h : Twins (Ahead dropped) s s c d) : d = c.withSamples d.samples := by
  obtain ⟨_, rfl, rfl⟩ := h.eq_withResampler
  rw [← h.settings.1]
  rfl

/-- The samples of the twin that drops none are the ones dropped, then the ones that are still
there. -/
theorem samples_eq (h : Twins (Ahead dropped) s s c d) :
    d.samples.toList = dropped ++ c.samples.toList := by
  obtain ⟨_, rfl, rfl⟩ := h.eq_withResampler
  exact Array.toList_append ..

/-- One twin drops its samples, and the other keeps them. -/
theorem clearSamples (h : Twins (Ahead dropped) s s c d) :
    Twins (Ahead (dropped ++ c.samples.toList)) s s c.clearSamples d := by
  obtain ⟨r, hm, hr⟩ := h.memory
  exact ⟨h.cpu, ⟨r, hm, hr.clear⟩, h.frames, h.settings⟩

/-- **The samples may be dropped in a run**: it goes on as the run without that, and what has been
dropped is what the other console is ahead. -/
theorem after_filter (h : Twins (Ahead dropped) s s c d) (calls : List Call) :
    Twins (Ahead (dropped ++ c.gather droppedIn calls)) s s (c.after calls)
        (d.after (calls.filter (· ≠ .clearSamples))) ∧
      (d.AllSucceed (calls.filter (· ≠ .clearSamples)) ↔ c.AllSucceed calls) := by
  induction calls generalizing c d dropped with
  | nil =>
    rw [gather, List.append_nil]
    exact ⟨h, Iff.rfl⟩
  | cons x rest ih =>
    by_cases hx : x = .clearSamples
    · subst hx
      obtain ⟨ht, hs⟩ := ih h.clearSamples
      rw [List.append_assoc] at ht
      rw [List.filter_cons_of_neg (by simp)]
      exact ⟨ht, hs.trans (iff_of_eq (true_and _)).symm⟩
    · obtain ⟨h', hxs⟩ := h.call (lasting_ahead dropped) hx
      obtain ⟨ht, hs⟩ := ih h'
      have hd : c.droppedIn x = [] := by
        cases x with
        | clearSamples => exact absurd rfl hx
        | _ => rfl
      rw [List.filter_cons_of_pos (by simpa using hx), gather, hd, List.nil_append]
      exact ⟨ht, and_congr hxs hs⟩

end Twins

end Console

namespace CommandLine

open Console (Twins)
open Apu.Resampler (Ahead lasting_ahead)

variable (listener : Option Notice.Level) {c d : Console} {total : Nat} (heard : List Notice)

-- unfolding the loop over the frames is not to run the first of them
attribute [local irreducible] Console.runFrame

/-- The first of the frames, and the rest of them. -/
theorem runFrames_succ (c : Console) (total n : Nat) :
    ∃ heard', runFrames listener c total heard (n + 1) =
      match c.runFrame.fault? with
      | some f => ⟨c.runFrame.console, total, heard', some f⟩
      | none => runFrames listener c.runFrame.console.clearSamples
          (total + c.runFrame.console.samples.size) heard' n :=
  ⟨_, rfl⟩

/-- **Running frames and dropping the samples after each** is running the frames: the one run ends
as the other does, and the console that has kept its samples is ahead by as many as have been
counted. -/
theorem twins_runFrames {dropped : List Float32} {s : Console.Settings}
    (h : Twins (Ahead dropped) s s c d) (ht : dropped.length = total) (cycles n : Nat) :
    ∃ dropped', dropped'.length = (runFrames listener c total heard n).samples ∧
      Twins (Ahead dropped') s s (runFrames listener c total heard n).console
        (d.runFramesFrom cycles n).console ∧
      (d.runFramesFrom cycles n).fault? = (runFrames listener c total heard n).fault? := by
  induction n generalizing c d total heard dropped cycles with
  | zero => exact ⟨dropped, ht, h, rfl⟩
  | succ n ih =>
    obtain ⟨c', d', k, fault, ec, ed, h'⟩ := (h.runFrame (lasting_ahead dropped)).split
    obtain ⟨heard', hr⟩ := runFrames_succ listener heard c total n
    rw [ec] at hr
    cases fault with
    | none =>
      rw [hr, Console.runFramesFrom_of_ok ed]
      refine ih heard' h'.clearSamples ?_ _
      rw [List.length_append, ht, Array.length_toList]
    | some f =>
      rw [hr, Console.runFramesFrom_of_error ed]
      exact ⟨dropped, ht, h', rfl⟩

/-- No samples are left after the last frame. -/
theorem samples_runFrames (h : c.samples = #[]) (n : Nat)
    (hf : (runFrames listener c total heard n).fault? = none) :
    (runFrames listener c total heard n).console.samples = #[] := by
  induction n generalizing c total heard with
  | zero => exact h
  | succ n ih =>
    obtain ⟨heard', hr⟩ := runFrames_succ listener heard c total n
    rw [hr] at hf ⊢
    cases hc : c.runFrame.fault? with
    | none =>
      rw [hc] at hf
      exact ih heard' rfl hf
    | some f =>
      rw [hc] at hf
      cases hf

end CommandLine

namespace Console

/-- **Dropping the samples loses nothing and disturbs nothing.**  Whatever calls there are, and
wherever among them the samples are dropped, without that the console would be the same but for its
samples, and these would be all that were dropped, followed by what is left; and the processor
stops in a cycle of the one run if it does in the other.  So the program, which drops the samples
after each frame, ends as a run of the frames does.  If it ends well, and there were no samples to
begin with, the number that it gives is that of the samples which the run of the frames leaves; and
but for these, of which the program leaves none, the two leave the same console. -/
theorem draining_loses_nothing (c : Console) :
    (∀ calls : List Call,
      let kept := c.after (calls.filter (· ≠ .clearSamples))
      kept = (c.after calls).withSamples kept.samples ∧
        kept.samples.toList = c.gather droppedIn calls ++ (c.after calls).samples.toList ∧
        (c.AllSucceed (calls.filter (· ≠ .clearSamples)) ↔ c.AllSucceed calls)) ∧
    ∀ (listener : Option Notice.Level) (heard : List Notice) (n : Nat),
      let drained := CommandLine.runFrames listener c 0 heard n
      (c.runFrames n).fault? = drained.fault? ∧
        (c.samples = #[] → drained.fault? = none →
          drained.samples = (c.runFrames n).console.samples.size ∧
            (c.runFrames n).console = drained.console.withSamples (c.runFrames n).console.samples ∧
            drained.console.samples = #[]) := by
  refine ⟨fun calls => ?_, fun listener heard n => ?_⟩
  · obtain ⟨h, hs⟩ := (Twins.ahead_refl c).after_filter calls
    exact ⟨h.eq_withSamples, h.samples_eq, hs⟩
  · obtain ⟨dropped, hd, h, hf⟩ :=
      CommandLine.twins_runFrames listener heard (Twins.ahead_refl c) (rfl : _ = 0) 0 n
    refine ⟨hf, fun hc hn => ?_⟩
    have he := CommandLine.samples_runFrames listener heard hc n hn
    have hs := congrArg List.length h.samples_eq
    rw [he, List.append_nil, hd] at hs
    exact ⟨hs.symm, h.eq_withSamples, he⟩

/-- A frame of a console whose processor is held up, as the program runs it. -/
theorem draining_loses_nothing_held :
    let drained := CommandLine.runFrames none held 0 [] 1
    held.samples = #[] ∧ drained.fault? = none ∧
      drained.samples = (held.runFrames 1).console.samples.size ∧
      (held.runFrames 1).console = drained.console.withSamples (held.runFrames 1).console.samples ∧
      drained.console.samples = #[] := by
  obtain ⟨hf, -⟩ := reachable_held.inFrame.runFrame_of_waits (by rw [remaining_held]; decide)
  obtain ⟨heard, hr⟩ := CommandLine.runFrames_succ none [] held 0 0
  rw [hf] at hr
  have hn : (CommandLine.runFrames none held 0 [] 1).fault? = none := by rw [hr]; rfl
  exact ⟨rfl, hn, ((draining_loses_nothing held).2 none [] 1).2 rfl hn⟩

end Console
end Famicom
