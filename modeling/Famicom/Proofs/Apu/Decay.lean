/-
# How an envelope falls

An envelope is three counters, one inside the other: the start, the divider and the falling volume.
The quarter frame after a restart takes up the start, sets the volume to 15 and loads the divider;
from then on the divider goes round once in `period + 1` quarter frames, and the volume falls when
it does.  So the counters after any number of quarter frames can be read off a division
(`Apu.Envelope.iterate_clock_restart`).

Neither the falling volume nor the constant one is ever above 15 (`Apu.Envelope.Bounded`).
-/

import Famicom.Proofs.Apu.Beats

namespace Famicom
namespace Apu
namespace Envelope

variable {e : Envelope}

/-- The volume when it has fallen so many times since it was 15: it stays at zero, or starts
again. -/
def fallen (looping : Bool) (falls : Nat) : Nat :=
  if looping then 15 - falls % 16 else 15 - min 15 falls

/-- At first the volume is 15. -/
theorem fallen_zero (looping : Bool) : fallen looping 0 = 15 := by cases looping <;> rfl

/-- Another fall. -/
theorem fallen_succ (looping : Bool) (falls : Nat) :
    fallen looping (falls + 1) =
      if 0 < fallen looping falls then fallen looping falls - 1 else if looping then 15 else 0 := by
  unfold fallen
  cases looping with
  | false =>
    simp only [Bool.false_eq_true, if_false]
    split_ifs <;> omega
  | true =>
    simp only [if_true]
    split_ifs <;> omega

/-- A volume that starts again passes from zero to 15; one that does not stays at zero. -/
example : [0, 1, 14, 15, 16, 17].map (fallen true) = [15, 14, 1, 0, 15, 14] ∧
    [0, 1, 14, 15, 16, 17].map (fallen false) = [15, 14, 1, 0, 0, 0] := by decide

/-- **An envelope after a restart**: the divider has gone round as often as `period + 1` goes into
the quarter frames since the first, and the volume has fallen as often. -/
theorem iterate_clock_restart (e : Envelope) (n : Nat) :
    clock^[n + 1] e.restart = { e with
      start := false
      divider := e.period - n % (e.period + 1)
      decay := fallen e.looping (n / (e.period + 1)) } := by
  induction n with
  | zero =>
    rw [Nat.zero_div, Nat.zero_mod, fallen_zero]
    rfl
  | succ n ih =>
    have hp : 0 < e.period + 1 := Nat.succ_pos _
    rw [Function.iterate_succ_apply', ih, clock, if_neg Bool.false_ne_true]
    dsimp only
    obtain ⟨hlt, hd, hm⟩ | ⟨heq, hd, hm⟩ := div_mod_succ hp n
    · have hr : e.period - n % (e.period + 1) ≠ 0 := by omega
      rw [if_neg hr, hd, hm, Nat.sub_sub]
    · -- the divider is round, and the volume falls
      have hr : e.period - n % (e.period + 1) = 0 := by omega
      rw [if_pos hr, hd, hm, fallen_succ, Nat.sub_zero]

/-- What can be done with an envelope. -/
inductive Call where
  /-- Write the control register of its channel. -/
  | write (v : UInt8)
  /-- Start it again. -/
  | restart
  /-- Let a quarter frame pass. -/
  | clock
deriving DecidableEq, Repr

/-- An envelope after a call. -/
def call (e : Envelope) : Call → Envelope
  | .write v => e.write v
  | .restart => e.restart
  | .clock => e.clock

/-- An envelope none of whose volumes is above 15. -/
structure Bounded (e : Envelope) : Prop where
  period_le : e.period ≤ 15
  decay_le : e.decay ≤ 15

/-- At first everything is zero. -/
theorem bounded_initial : ({} : Envelope).Bounded := ⟨Nat.zero_le _, Nat.zero_le _⟩

/-- A write sets a period of four bits. -/
theorem Bounded.write (h : e.Bounded) (v : UInt8) : (e.write v).Bounded where
  period_le := Nat.le_of_lt_succ (Nat.mod_lt _ (by decide))
  decay_le := h.decay_le

/-- A restart raises a flag, and no more. -/
theorem Bounded.restart (h : e.Bounded) : e.restart.Bounded := ⟨h.period_le, h.decay_le⟩

/-- A quarter frame sets the volume to 15, or takes one off it. -/
theorem Bounded.clock (h : e.Bounded) : e.clock.Bounded where
  period_le := by
    unfold Envelope.clock
    split_ifs <;> exact h.period_le
  decay_le := decay_clock_le h.decay_le

/-- So each call keeps the bounds. -/
theorem Bounded.call (h : e.Bounded) (x : Call) : (e.call x).Bounded := by
  cases x with
  | write v => exact h.write v
  | restart => exact h.restart
  | clock => exact h.clock

/-- Within the bounds the volume is at most 15, decaying or constant. -/
theorem Bounded.volume_le (h : e.Bounded) : e.volume ≤ 15 := by
  unfold volume
  split_ifs
  · exact h.period_le
  · exact h.decay_le

/-- **How loud an envelope is.**  Let an envelope that is not constant be started again, in
whatever state it is, and let one or more quarter frames pass in which nothing is written.  Then it
has fallen from 15 by one in every `period + 1` of them after the first, and stays at zero, or
starts again from 15 if it is looping.

Whatever is done with an envelope from power-on, its volume is at most 15. -/
theorem volume_of_restarted (e : Envelope) :
    (e.constant = false → ∀ k, 1 ≤ k →
      (clock^[k] e.restart).volume =
        if e.looping then 15 - (k - 1) / (e.period + 1) % 16
        else 15 - min 15 ((k - 1) / (e.period + 1))) ∧
    ∀ calls : List Call, (calls.foldl call {}).volume ≤ 15 := by
  constructor
  · intro hc k hk
    obtain ⟨n, rfl⟩ := Nat.exists_eq_add_of_le' hk
    have hv : ¬ (clock^[n + 1] e.restart).constant = true := by
      rw [iterate_clock_restart]
      exact Bool.eq_false_iff.1 hc
    rw [volume, if_neg hv, iterate_clock_restart]
    rfl
  · intro calls
    have hb : (calls.foldl call {}).Bounded :=
      List.foldlRecOn calls call bounded_initial fun _ h x _ => h.call x
    exact hb.volume_le

/-- A looping envelope of period 1, which was falling before: after 32 quarter frames it is at
zero, and after one more at 15 again. -/
theorem volume_of_restarted_looping :
    let e := [Call.write 0x25, .restart, .clock, .clock, .write 0x21].foldl call {}
    e.constant = false ∧ (1 ≤ 32 ∧ (clock^[32] e.restart).volume = 0) ∧
      (1 ≤ 33 ∧ (clock^[33] e.restart).volume = 15) := by
  intro e
  obtain ⟨h, -⟩ := volume_of_restarted e
  have hl : e.looping = true := rfl
  have hp : e.period = 1 := rfl
  simp only [hl, hp, if_true] at h
  exact ⟨rfl, ⟨by decide, h rfl 32 (by decide)⟩, by decide, h rfl 33 (by decide)⟩

end Envelope
end Apu
end Famicom
