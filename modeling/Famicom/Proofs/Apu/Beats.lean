/-
# How often the sequencer beats

After a write to its register the sequencer runs through the same cycles over and over, and nothing
else that is done with the sound unit reaches its count or its mode (`Apu.Sequenced.use`).  So the
beats of any run can be counted without following it.  In so many cycles a cycle of the sequence is
come to once for every sequence that has been completed, and once more if the sequence under way is
past it (`Apu.struck`).

With five steps the write is itself a half beat.  With four the last half beat requests an
interrupt, unless that is inhibited, and nothing else does.  What is counted so are the clocks that
the channels get (`Apu.hear_eq`).
-/

import Famicom.Apu.Basic
import Mathlib.Algebra.Ring.Nat
import Mathlib.Logic.Function.Iterate
import Mathlib.Tactic.SplitIfs

namespace Famicom
namespace Apu

namespace Beat

/-- How often the envelopes and the linear counter are clocked in a beat. -/
def quarters : Beat → Nat
  | none => 0
  | quarter | half => 1

/-- How often the lengths and the sweeps are clocked in a beat. -/
def halves : Beat → Nat
  | none | quarter => 0
  | half => 1

end Beat

/-- **What the channels do at a beat**: they are clocked as often as it says. -/
theorem hear_eq (a : Apu) (beat : Beat) :
    a.hear beat = clockHalf^[beat.halves] (clockQuarter^[beat.quarters] a) := by
  cases beat <;> rfl

/-- What is done with the sound unit between two resets. -/
inductive Use where
  /-- Let a cycle pass. -/
  | tick
  /-- Write a register. -/
  | write (address : UInt16) (v : UInt8)
  /-- Read the status register. -/
  | readStatus
  /-- Give the delta modulation channel a byte. -/
  | fill (v : UInt8)
  /-- Drop the samples. -/
  | clearSamples
deriving DecidableEq, Repr

/-- Whether something other than a write to the sequencer's register is done. -/
def Use.sparesSequencer : Use → Bool
  | write address _ => address != 0x4017
  | _ => true

/-- The sound unit after something has been done with it. -/
def use (a : Apu) : Use → Apu
  | .tick => a.tick
  | .write address v => a.write address v
  | .readStatus => a.readStatus.2
  | .fill v => a.fill v
  | .clearSamples => a.clearSamples

/-- The sound unit after a run. -/
def afterUses (a : Apu) (uses : List Use) : Apu := uses.foldl use a

/-- The last use of a run finds what the others have left. -/
theorem afterUses_concat (a : Apu) (uses : List Use) (x : Use) :
    a.afterUses (uses ++ [x]) = (a.afterUses uses).use x :=
  List.foldl_append

/-- What lasts while only some things are done lasts in a run of them. -/
theorem afterUses_preserves {P : Apu → Prop} {Q : Use → Prop}
    (step : ∀ a x, Q x → P a → P (a.use x)) {a : Apu} (ha : P a) {uses : List Use}
    (hu : ∀ x ∈ uses, Q x) : P (a.afterUses uses) := by
  induction uses generalizing a with
  | nil => exact ha
  | cons x rest ih =>
    exact ih (step a x (hu x (List.mem_cons_self ..)) ha) fun y hy =>
      hu y (List.mem_cons_of_mem _ hy)

/-- The beat that the channels hear when something is done. -/
def beatOf (a : Apu) : Use → Beat
  | .tick => a.sequencer.tick.1
  | .write address v => if address = 0x4017 then (a.sequencer.write v).1 else .none
  | _ => .none

/-- The beats that the channels hear in a run. -/
def beats (a : Apu) : List Use → List Beat
  | [] => []
  | x :: rest => a.beatOf x :: (a.use x).beats rest

/-- How often the envelopes and the linear counter are clocked in a run. -/
def quarters (a : Apu) (uses : List Use) : Nat := ((a.beats uses).map Beat.quarters).sum

/-- How often the lengths and the sweeps are clocked in a run. -/
def halves (a : Apu) (uses : List Use) : Nat := ((a.beats uses).map Beat.halves).sum

/-! ### Who moves the sequencer

Only a cycle and a write to the sequencer's own register do, and of what they make of it the
channels know the beat alone.  So the sequencer can be followed by itself. -/

/-- **What a cycle of the timers reaches**, part by part: the pulses and the noise only in every
second. -/
theorem clockTimers_eq (a : Apu) :
    a.clockTimers = { a with
      pulse1 := if (a.cycles + 1) % 2 = 0 then a.pulse1.clockTimer else a.pulse1
      pulse2 := if (a.cycles + 1) % 2 = 0 then a.pulse2.clockTimer else a.pulse2
      triangle := a.triangle.clockTimer
      noise := if (a.cycles + 1) % 2 = 0 then a.noise.clockTimer else a.noise
      dmc := a.dmc.clockTimer
      cycles := a.cycles + 1 } := by
  unfold clockTimers
  dsimp only
  split <;> rfl

/-- The timers do not move the sequencer. -/
theorem sequencer_clockTimers (a : Apu) : a.clockTimers.sequencer = a.sequencer := by
  rw [clockTimers_eq]

/-- Neither do the channels when they hear a beat. -/
theorem sequencer_hear (a : Apu) (beat : Beat) : (a.hear beat).sequencer = a.sequencer := by
  cases beat <;> rfl

/-- In a cycle the channels hear the beat of the sequencer, and nothing else clocks them so. -/
theorem tick_eq_hear (a : Apu) :
    a.tick =
      ({ a.clockTimers with sequencer := a.sequencer.tick.2 }.hear
        a.sequencer.tick.1).resample := by
  rw [tick, clockSequencer, sequencer_clockTimers]

/-- So in a cycle the sequencer goes on by itself. -/
theorem sequencer_tick (a : Apu) : a.tick.sequencer = a.sequencer.tick.2 := by
  rw [tick_eq_hear]
  exact sequencer_hear ..

/-- At a write to the sequencer's register the channels hear its beat. -/
theorem write_eq_hear (a : Apu) (v : UInt8) :
    a.write 0x4017 v =
      { a with sequencer := (a.sequencer.write v).2 }.hear (a.sequencer.write v).1 :=
  rfl

/-- A write to its register starts the sequencer anew, whatever the channels make of the beat. -/
theorem sequencer_write_self (a : Apu) (v : UInt8) :
    (a.write 0x4017 v).sequencer = (a.sequencer.write v).2 := by
  rw [write_eq_hear]
  exact sequencer_hear ..

/-- A write to another register does not reach the sequencer. -/
theorem sequencer_write_of_ne {address : UInt16} (h : address ≠ 0x4017) (a : Apu) (v : UInt8) :
    (a.write address v).sequencer = a.sequencer := by
  unfold write
  split
  case h_20 => exact absurd rfl h
  all_goals rfl

/-! ### Counting steps

A sequence is a round of cycles in which some steps are marked.  What is counted is how many marks
have been passed after so many cycles: all of them for every round, and in the round under way
those that are not ahead. -/

/-- How often the cycles `steps` of a sequence of `period` cycles have been come to after `n`
cycles. -/
def struck (steps : List Nat) (period n : Nat) : Nat :=
  steps.length * (n / period) + steps.countP (· ≤ n % period)

/-- Right after the write no step has been struck. -/
theorem struck_zero {steps : List Nat} (h : ∀ s ∈ steps, 0 < s) (period : Nat) :
    struck steps period 0 = 0 := by
  rw [struck, Nat.zero_div, Nat.zero_mod, Nat.mul_zero, Nat.zero_add, List.countP_eq_zero]
  intro s hs
  simpa using Nat.ne_of_gt (h s hs)

/-- In two and a half rounds of ten cycles, steps at 3 and 7 are struck five times. -/
example : struck [3, 7] 10 25 = 5 := by decide

/-- The steps struck within one more cycle are those struck before, and those of that cycle. -/
theorem countP_le_succ (steps : List Nat) (n : Nat) :
    steps.countP (· ≤ n + 1) = steps.countP (· ≤ n) + steps.count (n + 1) := by
  induction steps with
  | nil => rfl
  | cons s rest ih =>
    simp only [List.countP_cons, List.count_cons, decide_eq_true_eq, beq_iff_eq, ih]
    split_ifs <;> omega

/-- A cycle more goes on in the sequence, or starts the next one. -/
theorem div_mod_succ {period : Nat} (hp : 0 < period) (n : Nat) :
    (n % period + 1 < period ∧ (n + 1) / period = n / period ∧
        (n + 1) % period = n % period + 1) ∨
      (n % period + 1 = period ∧ (n + 1) / period = n / period + 1 ∧ (n + 1) % period = 0) := by
  have hr := Nat.mod_lt n hp
  have hn := Nat.mod_add_div n period
  rcases Nat.lt_or_ge (n % period + 1) period with hl | hl
  · refine .inl ⟨hl, (Nat.div_mod_unique hp).2 ⟨?_, hl⟩⟩
    omega
  · refine .inr ⟨by omega, (Nat.div_mod_unique hp).2 ⟨?_, hp⟩⟩
    rw [Nat.mul_add]
    omega

/-- **One cycle more**: the steps that are that cycle of the sequence have been come to once more.
-/
theorem struck_succ {steps : List Nat} {period : Nat} (hp : 0 < period)
    (h : ∀ s ∈ steps, 0 < s ∧ s < period) (n : Nat) :
    struck steps period (n + 1) = struck steps period n + steps.count (n % period + 1) := by
  obtain ⟨-, hd, hm⟩ | ⟨hl, hd, hm⟩ := div_mod_succ hp n
  · rw [struck, struck, hd, hm, countP_le_succ, Nat.add_assoc]
  · -- the last cycle of the sequence: all its steps have been come to, and it is none of them
    have h₀ : steps.countP (· ≤ 0) = 0 := by
      refine List.countP_eq_zero.2 fun s hs => ?_
      have := h s hs
      simp only [decide_eq_true_eq]
      omega
    have h₁ : steps.countP (· ≤ n % period) = steps.length := by
      refine List.countP_eq_length.2 fun s hs => ?_
      have := h s hs
      simp only [decide_eq_true_eq]
      omega
    have h₂ : steps.count (n % period + 1) = 0 := by
      refine List.count_eq_zero.2 fun hs => ?_
      have := h _ hs
      omega
    rw [struck, struck, hd, hm, h₀, h₁, h₂, Nat.mul_add, Nat.mul_one]

/-- The cycles of a sequence in which the envelopes and the linear counter are clocked. -/
def quarterSteps (fiveStep : Bool) : List Nat :=
  [7457, 14913, 22371, if fiveStep then 37281 else 29829]

/-- The cycles of a sequence in which the lengths and the sweeps are clocked. -/
def halfSteps (fiveStep : Bool) : List Nat := [14913, if fiveStep then 37281 else 29829]

/-- Both sequences have a length. -/
theorem period_pos (fiveStep : Bool) : 0 < Sequencer.period fiveStep := by
  cases fiveStep <;> decide

/-- The steps of a quarter frame lie inside the sequence, not at its start. -/
theorem quarterSteps_lt (fiveStep : Bool) :
    ∀ s ∈ quarterSteps fiveStep, 0 < s ∧ s < Sequencer.period fiveStep := by
  cases fiveStep <;> decide

/-- The steps of a half frame lie inside the sequence, not at its start. -/
theorem halfSteps_lt (fiveStep : Bool) :
    ∀ s ∈ halfSteps fiveStep, 0 < s ∧ s < Sequencer.period fiveStep := by
  cases fiveStep <;> decide

/-- The beat of a cycle has a quarter for each step that falls on the cycle. -/
theorem quarters_beatAt (fiveStep : Bool) (cycle : Nat) :
    (Sequencer.beatAt fiveStep cycle).quarters = (quarterSteps fiveStep).count cycle := by
  simp only [Sequencer.beatAt, quarterSteps, List.count_cons, List.count_nil, beq_iff_eq]
  split_ifs <;> simp only [Beat.quarters] <;> omega

/-- The beat of a cycle has a half for each step of a half frame that falls on the cycle. -/
theorem halves_beatAt (fiveStep : Bool) (cycle : Nat) :
    (Sequencer.beatAt fiveStep cycle).halves = (halfSteps fiveStep).count cycle := by
  simp only [Sequencer.beatAt, halfSteps, List.count_cons, List.count_nil, beq_iff_eq]
  split_ifs <;> simp only [Beat.halves] <;> omega

/-- The last step of a sequence is the one in which the two modes differ. -/
example : Sequencer.beatAt false 29829 = .half ∧ Sequencer.beatAt true 29829 = .none ∧
    Sequencer.beatAt true 37281 = .half := by decide

/-! ### A run of the sequencer

The invariant says where in its sequence the sequencer is.  Each use keeps it, with one more cycle
if the use is one, and so the beat of a use is known before the use. -/

/-- The sequencer runs in a mode, and so many cycles have passed since it was set. -/
structure Sequenced (fiveStep inhibit : Bool) (n : Nat) (a : Apu) : Prop where
  cycle : a.sequencer.cycle = n % Sequencer.period fiveStep
  fiveStep : a.sequencer.fiveStep = fiveStep
  inhibit : a.sequencer.inhibit = inhibit

variable {fiveStep inhibit : Bool} {n : Nat} {a : Apu}

/-- A write to the register begins a sequence in its mode, at cycle 0. -/
theorem sequenced_write (a : Apu) (v : UInt8) :
    Sequenced (v &&& 0x80 != 0) (v &&& 0x40 != 0) 0 (a.write 0x4017 v) := by
  constructor <;> rw [sequencer_write_self]
  · exact (Nat.zero_mod _).symm
  · rfl
  · rfl

/-- What does not let a cycle pass leaves the sequencer alone, but for its request. -/
theorem sequencer_use {x : Use} (hx : x.sparesSequencer) (ht : x ≠ .tick) (a : Apu) :
    ∃ irq, (irq = true → a.sequencer.irq = true) ∧
      (a.use x).sequencer = { a.sequencer with irq } := by
  cases x with
  | tick => exact absurd rfl ht
  | write address v =>
    rw [Use.sparesSequencer, bne_iff_ne] at hx
    exact ⟨_, id, sequencer_write_of_ne hx a v⟩
  | readStatus => exact ⟨false, nofun, rfl⟩
  | fill v => exact ⟨_, id, rfl⟩
  | clearSamples => exact ⟨_, id, rfl⟩

/-- **The sequencer runs on**, whatever else is done with the sound unit. -/
theorem Sequenced.use (h : Sequenced fiveStep inhibit n a) {x : Use} (hx : x.sparesSequencer) :
    Sequenced fiveStep inhibit (n + [x].count .tick) (a.use x) := by
  by_cases ht : x = .tick
  · subst ht
    have hs : (a.use .tick).sequencer = a.sequencer.tick.2 := sequencer_tick a
    constructor <;> rw [hs]
    · show (if _ then 0 else _) = _
      rw [h.cycle, h.fiveStep]
      obtain ⟨hl, -, hm⟩ | ⟨hl, -, hm⟩ := div_mod_succ (period_pos fiveStep) n
      · exact (if_neg (Nat.not_le.2 hl)).trans hm.symm
      · exact (if_pos (Nat.le_of_eq hl.symm)).trans hm.symm
    · exact h.fiveStep
    · exact h.inhibit
  · obtain ⟨irq, -, hs⟩ := sequencer_use hx ht a
    rw [List.count_singleton, if_neg (by simpa using ht)]
    constructor <;> rw [hs]
    · exact h.cycle
    · exact h.fiveStep
    · exact h.inhibit

/-- **A run that does not write there goes through the sequence**: as many cycles further as it has
ticks. -/
theorem Sequenced.after (h : Sequenced fiveStep inhibit n a) {uses : List Use}
    (hu : ∀ x ∈ uses, x.sparesSequencer) :
    Sequenced fiveStep inhibit (n + uses.count .tick) (a.afterUses uses) := by
  induction uses generalizing a n with
  | nil => exact h
  | cons x rest ih =>
    have hx := h.use (hu x (List.mem_cons_self ..))
    rw [← List.singleton_append, List.count_append, ← Nat.add_assoc]
    exact ih hx fun y hy => hu y (List.mem_cons_of_mem _ hy)

/-- The beat of a cycle is that of the place in the sequence. -/
theorem Sequenced.beatOf_tick (h : Sequenced fiveStep inhibit n a) :
    a.beatOf .tick = Sequencer.beatAt fiveStep (n % Sequencer.period fiveStep + 1) := by
  rw [← h.cycle, ← h.fiveStep]
  rfl

/-- Of the uses that spare the sequencer only a cycle can have a beat. -/
theorem beatOf_of_spares {x : Use} (hx : x.sparesSequencer) (ht : x ≠ .tick) (a : Apu) :
    a.beatOf x = .none := by
  cases x with
  | tick => exact absurd rfl ht
  | write address v =>
    rw [Use.sparesSequencer, bne_iff_ne] at hx
    exact if_neg hx
  | readStatus | fill | clearSamples => rfl

/-- **The beats of a run add up to the steps that it has come to**, for all that counts at a beat.
-/
theorem Sequenced.sum_beats (h : Sequenced fiveStep inhibit n a) {uses : List Use}
    (hu : ∀ x ∈ uses, x.sparesSequencer) {weight : Beat → Nat} {steps : List Nat}
    (hw : ∀ cycle, weight (Sequencer.beatAt fiveStep cycle) = steps.count cycle)
    (h₀ : weight .none = 0) (hs : ∀ s ∈ steps, 0 < s ∧ s < Sequencer.period fiveStep) :
    struck steps (Sequencer.period fiveStep) n + ((a.beats uses).map weight).sum =
      struck steps (Sequencer.period fiveStep) (n + uses.count .tick) := by
  induction uses generalizing a n with
  | nil => rfl
  | cons x rest ih =>
    have hx := hu x (List.mem_cons_self ..)
    have hr := ih (h.use hx) fun y hy => hu y (List.mem_cons_of_mem _ hy)
    rw [beats, List.map_cons, List.sum_cons, ← List.singleton_append, List.count_append,
      ← Nat.add_assoc n, ← hr, ← Nat.add_assoc]
    congr 1
    by_cases ht : x = .tick
    · subst ht
      rw [h.beatOf_tick, hw]
      exact (struck_succ (period_pos fiveStep) hs n).symm
    · rw [beatOf_of_spares hx ht, h₀, List.count_singleton, if_neg (by simpa using ht)]
      rfl

/-- In a cycle the request for an interrupt goes up at the last step of four, unless it is
inhibited. -/
theorem Sequenced.irq_tick (h : Sequenced fiveStep inhibit n a) :
    a.tick.sequencer.irq =
      (a.sequencer.irq || !fiveStep && !inhibit && (n + 1) % 29830 == 29829) := by
  have ht : a.tick.sequencer.irq = (a.sequencer.irq ||
      Sequencer.irqAt a.sequencer.fiveStep (a.sequencer.cycle + 1) && !a.sequencer.inhibit) := by
    rw [sequencer_tick]
    rfl
  rw [ht, h.cycle, h.fiveStep, h.inhibit, Sequencer.irqAt]
  cases fiveStep with
  | true => rfl
  | false =>
    have hc : (n % Sequencer.period false + 1 == 29829) = ((n + 1) % 29830 == 29829) := by
      have hp : Sequencer.period false = 29830 := rfl
      rw [Bool.eq_iff_iff, beq_iff_eq, beq_iff_eq, hp]
      omega
    rw [hc, Bool.not_false, Bool.true_and, Bool.true_and, Bool.and_comm]

end Apu
end Famicom
