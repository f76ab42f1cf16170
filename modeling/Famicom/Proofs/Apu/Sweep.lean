/-
# What a sweep does to the pitch

A sweep rewrites the period by which it judges whether the channel is to be heard.  The period has
eleven bits (`Apu.Pulse.timerPeriod_call_le`): a write leaves no more of it, and a sweep that would
is not made, since the channel is muted then.  A sweep that is made shifts a period of 8 or more to
the right by one bit at least, so that less than the whole is taken away and nothing is cut off at
zero (`Apu.Pulse.targetPeriod_eq_aim`).

Whether the channel is muted hangs on four things, its pitch for short (`Apu.Pulse.pitch`).
Without a write nothing changes them but a sweep, and a muted channel makes none, so it stays
muted.
-/

import Famicom.Proofs.Apu.Calls

namespace Famicom
namespace Apu
namespace Pulse

variable {p : Pulse}

/-- The period that a sweep is meant to arrive at, as an integer: nothing is cut off. -/
def aim (number : Number) (sweep : Sweep) (period : Nat) : Int :=
  let change : Int := (period >>> sweep.shift : Nat)
  if sweep.negate then
    match number with
    | .one => period - change - 1
    | .two => period - change
  else period + change

/-- A shift by at least one bit halves at least. -/
theorem shiftRight_le_half {shift : Nat} (h : 0 < shift) (period : Nat) :
    period >>> shift ≤ period / 2 := by
  rw [Nat.shiftRight_eq_div_pow]
  exact Nat.div_le_div_left (Nat.le_self_pow (Nat.ne_of_gt h) 2) (by decide)

/-- **A period of 8 or more is swept exactly**, by one bit or more. -/
theorem targetPeriod_eq_aim (hp : 8 ≤ p.timerPeriod) (hs : 0 < p.sweep.shift) :
    (p.targetPeriod : Int) = aim p.number p.sweep p.timerPeriod := by
  have hc := shiftRight_le_half hs p.timerPeriod
  unfold targetPeriod aim
  cases p.sweep.negate with
  | false => exact Int.natCast_add _ _
  | true =>
    cases p.number with
    | one =>
      simp only [if_true]
      omega
    | two =>
      simp only [if_true]
      omega

/-- A channel sounds if its period is at least 8 and the sweep's target is at most `0x7FF`. -/
theorem not_muted_iff : p.muted = false ↔ 8 ≤ p.timerPeriod ∧ p.targetPeriod ≤ 0x7FF := by
  simp [muted]

/-- A period of 8 sounds, one of 7 does not, and one that the sweep would double is too long. -/
example : ({ number := .one, timerPeriod := 8 } : Pulse).muted = false ∧
    ({ number := .one, timerPeriod := 7 } : Pulse).muted = true ∧
    ({ number := .two, timerPeriod := 0x400 } : Pulse).muted = true := by decide

/-- It is muted if its period is too short or the target too long. -/
theorem muted_iff : p.muted = true ↔ p.timerPeriod < 8 ∨ 0x7FF < p.targetPeriod := by
  simp [muted]

/-- What has to come together for a sweep. -/
theorem sweeps_iff : p.sweeps = true ↔
    p.sweep.divider = 0 ∧ p.sweep.enabled = true ∧ 0 < p.sweep.shift ∧ p.muted = false := by
  simp [sweeps, and_assoc]

/-- **What a call does to the period**: it is written, it is swept by a half frame, or it stays. -/
theorem timerPeriod_call (p : Pulse) (x : Channel.Call) :
    (x.isWrite = true ∧ ∃ v, (p.call x).timerPeriod = withLowByte p.timerPeriod v ∨
      (p.call x).timerPeriod = withHighBits p.timerPeriod v) ∨
    (x = .clockHalf ∧ p.sweeps = true ∧ (p.call x).timerPeriod = p.targetPeriod) ∨
    (p.call x).timerPeriod = p.timerPeriod := by
  cases x with
  | write register v =>
    match register with
    | 0 | 1 => exact .inr (.inr rfl)
    | 2 => exact .inl ⟨rfl, v, .inl rfl⟩
    | 3 => exact .inl ⟨rfl, v, .inr rfl⟩
  | clockTimer =>
    refine .inr (.inr ?_)
    show p.clockTimer.timerPeriod = _
    unfold clockTimer
    split_ifs <;> rfl
  | clockHalf =>
    by_cases h : p.sweeps = true
    · exact .inr (.inl ⟨rfl, h, if_pos h⟩)
    · exact .inr (.inr (if_neg h))
  | setEnabled _ | clockQuarter | fill _ | clearIrq => exact .inr (.inr rfl)

/-- **The period keeps to eleven bits.** -/
theorem timerPeriod_call_le (h : p.timerPeriod ≤ 0x7FF) (x : Channel.Call) :
    (p.call x).timerPeriod ≤ 0x7FF := by
  obtain ⟨-, v, hv | hv⟩ | ⟨-, hs, ht⟩ | hk := p.timerPeriod_call x
  · rw [hv]
    exact Nat.le_of_lt_succ (withLowByte_lt _ v)
  · rw [hv]
    exact Nat.le_of_lt_succ (withHighBits_lt _ v)
  · rw [ht]
    exact (not_muted_iff.1 (sweeps_iff.1 hs).2.2.2).2
  · rwa [hk]

/-- No call makes one channel the other. -/
theorem number_call (p : Pulse) (x : Channel.Call) : (p.call x).number = p.number := by
  cases x with
  | write register v => match register with | 0 | 1 | 2 | 3 => rfl
  | clockTimer =>
    show p.clockTimer.number = _
    unfold clockTimer
    split_ifs <;> rfl
  | setEnabled _ | clockQuarter | clockHalf | fill _ | clearIrq => rfl

/-- What decides whether a channel is muted: which channel it is, its period, and how it would be
swept. -/
def pitch (p : Pulse) : Number × Nat × Bool × Nat :=
  (p.number, p.timerPeriod, p.sweep.negate, p.sweep.shift)

/-- Whether a channel is muted hangs on its pitch alone. -/
theorem muted_congr {q : Pulse} (h : q.pitch = p.pitch) : q.muted = p.muted := by
  simp only [pitch, Prod.mk.injEq] at h
  obtain ⟨hn, hp, hg, hs⟩ := h
  unfold muted targetPeriod
  rw [hn, hp, hg, hs]

/-- **A muted channel keeps its pitch** until one of its registers is written. -/
theorem pitch_call (h : p.muted = true) {x : Channel.Call} (hx : x.isWrite = false) :
    (p.call x).pitch = p.pitch := by
  cases x with
  | write register v => cases hx
  | clockTimer =>
    show p.clockTimer.pitch = _
    unfold clockTimer
    split_ifs <;> rfl
  | clockHalf =>
    have hs : p.sweeps = false := by rw [sweeps, h, Bool.not_true, Bool.and_false]
    show p.clockHalf.pitch = _
    rw [clockHalf, hs, if_neg Bool.false_ne_true, pitch]
    dsimp only
    split_ifs <;> rfl
  | setEnabled _ | clockQuarter | fill _ | clearIrq => rfl

/-- A muted channel that is not written to keeps its pitch: no sweep is done. -/
theorem pitch_foldl_call (h : p.muted = true) {later : List Channel.Call}
    (hl : ∀ x ∈ later, x.isWrite = false) : (later.foldl call p).pitch = p.pitch :=
  List.foldlRecOn (motive := fun q => q.pitch = p.pitch) later call rfl fun _ hq x hx =>
    (pitch_call ((muted_congr hq).trans h) (hl x hx)).trans hq

/-- A muted channel is silent. -/
theorem output_of_muted (h : p.muted = true) : p.output = 0 :=
  if_pos (by rw [h, Bool.or_true, Bool.true_or])

/-- **A sweep is safe.**  Whatever is done with a pulse channel from power-on, its period has
eleven bits, so that no sum that the sweep forms leaves a word.  A half frame leaves the period as
it is, or it is swept, and then it is exactly the period `p` changed by `p >>> shift`: the sum, or
the difference, and one less in the first channel.

A channel whose period is below 8, or would be swept above `$7FF`, stays such a one, with no output
and with the period that it has, until one of its registers is written. -/
theorem sweep_is_safe (number : Number) (calls : List Channel.Call) :
    let p := calls.foldl call { number }
    p.timerPeriod ≤ 0x7FF ∧ p.timerPeriod + p.timerPeriod >>> p.sweep.shift ≤ 0xFFFF ∧
    (if p.sweeps then (p.clockHalf.timerPeriod : Int) = aim number p.sweep p.timerPeriod
      else p.clockHalf.timerPeriod = p.timerPeriod) ∧
    (p.timerPeriod < 8 ∨ 0x7FF < p.targetPeriod →
      ∀ later : List Channel.Call, (∀ x ∈ later, x.isWrite = false) →
        let q := later.foldl call p
        (q.timerPeriod < 8 ∨ 0x7FF < q.targetPeriod) ∧ q.output = 0 ∧
          q.timerPeriod = p.timerPeriod) := by
  intro p
  have hperiod : p.timerPeriod ≤ 0x7FF :=
    List.foldlRecOn (motive := fun q : Pulse => q.timerPeriod ≤ 0x7FF) calls call (Nat.zero_le _)
      fun _ h x _ => timerPeriod_call_le h x
  have hnumber : p.number = number :=
    List.foldlRecOn (motive := fun q : Pulse => q.number = number) calls call rfl
      fun q h x _ => (number_call q x).trans h
  refine ⟨hperiod, ?_, ?_, fun hm later hl => ?_⟩
  · have : p.timerPeriod >>> p.sweep.shift ≤ p.timerPeriod := Nat.shiftRight_le _ _
    omega
  · split_ifs with hs
    · obtain ⟨-, -, hshift, hm⟩ := sweeps_iff.1 hs
      rw [← hnumber, ← targetPeriod_eq_aim (not_muted_iff.1 hm).1 hshift]
      exact congrArg Nat.cast (if_pos hs)
    · exact if_neg hs
  · intro q
    rw [← muted_iff] at hm ⊢
    have hpitch : q.pitch = p.pitch := pitch_foldl_call hm hl
    have hq : q.muted = true := (muted_congr hpitch).trans hm
    refine ⟨hq, output_of_muted hq, ?_⟩
    exact congrArg (fun t : Number × Nat × Bool × Nat => t.2.1) hpitch

/-- A sweep down by `$10`, and by one more in the first channel.  A sweep up that would leave the
eleven bits is not made though it is switched on, and nothing is heard. -/
theorem sweep_is_safe_both_ways :
    let down : List Channel.Call := [.write 2 0x00, .write 3 0x09, .write 1 0x8C]
    let up : List Channel.Call :=
      [.setEnabled true, .write 0 0xBF, .write 2 0xF0, .write 3 0x0F, .write 1 0x81]
    let later : List Channel.Call := [.clockHalf, .clockTimer, .clockQuarter, .clockHalf]
    let p := up.foldl call { number := .two }
    ((down.foldl call { number := .one }).clockHalf.timerPeriod : Int) = 0x100 - 0x10 - 1 ∧
      ((down.foldl call { number := .two }).clockHalf.timerPeriod : Int) = 0x100 - 0x10 ∧
      (p.timerPeriod < 8 ∨ 0x7FF < p.targetPeriod) ∧ (∀ x ∈ later, x.isWrite = false) ∧
      (later.foldl call p).output = 0 ∧ (later.foldl call p).timerPeriod = 0x7F0 := by
  intro down up later p
  obtain ⟨-, -, hone, -⟩ := sweep_is_safe .one down
  obtain ⟨-, -, htwo, -⟩ := sweep_is_safe .two down
  obtain ⟨-, -, -, hmuted⟩ := sweep_is_safe .two up
  rw [if_pos (show (down.foldl call { number := .one }).sweeps = true by decide)] at hone
  rw [if_pos (show (down.foldl call { number := .two }).sweeps = true by decide)] at htwo
  have hp : p.timerPeriod < 8 ∨ 0x7FF < p.targetPeriod := .inr (by decide)
  have hl : ∀ x ∈ later, x.isWrite = false := by decide
  obtain ⟨-, ho, ht⟩ := hmuted hp later hl
  exact ⟨hone.trans (by decide), htwo.trans (by decide), hp, hl, ho, ht⟩

end Pulse
end Apu
end Famicom
