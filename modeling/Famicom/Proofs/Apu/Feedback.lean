/-
# The register of the noise channel never sticks

A step of the register loses nothing.  It moves 14 bits down by one, where they can still be read;
the bit that left at the bottom was added to another one of them, and the sum has come in at the
top (`Apu.Noise.previousShift`).  So two registers that differ differ after the step, and after any
number of steps if both go through the same modes (`Apu.Noise.stepped_injOn`).  In particular a
register that is not empty is never emptied.

When the register is stepped, and in which mode, is settled by the timer and the writes.  For the
register itself a run of calls is no more than the list of the modes in which it was stepped
(`Apu.Noise.modes`).
-/

import Famicom.Proofs.Apu.Calls
import Mathlib.Data.Set.Function
import Mathlib.Order.Interval.Set.Defs

namespace Famicom
namespace Apu
namespace Noise

/-- The register before a step: 14 of its bits are still there, and the one that left was part of a
sum. -/
def previousShift (shortMode : Bool) (shift : Nat) : Nat :=
  let kept := shift % 0x4000
  let tapped := if shortMode then kept / 32 else kept
  kept * 2 + (shift / 0x4000 + tapped) % 2

/-- **A step can be undone.** -/
theorem previousShift_nextShift {shift : Nat} (h : shift < 0x8000) (shortMode : Bool) :
    previousShift shortMode (nextShift shortMode shift) = shift := by
  have hkept : nextShift shortMode shift % 0x4000 = shift / 2 := by
    unfold nextShift
    dsimp only
    omega
  have hfed : nextShift shortMode shift / 0x4000 =
      (shift + if shortMode then shift / 64 else shift / 2) % 2 := by
    unfold nextShift
    dsimp only
    omega
  have htapped : (if shortMode then shift / 2 / 32 else shift / 2) =
      if shortMode then shift / 64 else shift / 2 := by
    rw [Nat.div_div_eq_div_mul]
  -- the tapped bit was added twice, and the bit that left is what remains
  unfold previousShift
  rw [hkept, hfed]
  dsimp only
  rw [htapped]
  omega

/-- Within fifteen bits no two registers are followed by the same: each can be found from the
next. -/
theorem nextShift_injOn (shortMode : Bool) : Set.InjOn (nextShift shortMode) (Set.Iio 0x8000) := by
  intro s hs t ht h
  rw [← previousShift_nextShift hs shortMode, h, previousShift_nextShift ht shortMode]

/-- The bit that is fed in is that of the two lowest, or that of bits 0 and 6. -/
example : nextShift false 0x0001 = 0x4000 ∧ nextShift false 0x0003 = 0x0001 ∧
    nextShift true 0x0041 = 0x0020 := by decide

/-- A register after steps in the given modes, one after the other. -/
def stepped (modes : List Bool) (shift : Nat) : Nat :=
  modes.foldl (fun s shortMode => nextShift shortMode s) shift

/-- Any number of steps, in any modes, leaves fifteen bits. -/
theorem stepped_lt (modes : List Bool) {shift : Nat} (h : shift < 0x8000) :
    stepped modes shift < 0x8000 :=
  List.foldlRecOn (motive := (· < 0x8000)) modes _ h fun _ hs m _ => nextShift_lt hs m

/-- A register that is not zero never becomes zero. -/
theorem stepped_pos (modes : List Bool) {shift : Nat} (h : 0 < shift) : 0 < stepped modes shift :=
  List.foldlRecOn (motive := (0 < ·)) modes _ h fun _ hs m _ => nextShift_pos hs m

/-- **Registers that differ never merge** while they go through the same modes. -/
theorem stepped_injOn (modes : List Bool) : Set.InjOn (stepped modes) (Set.Iio 0x8000) := by
  induction modes with
  | nil => exact Set.injOn_id _
  | cons mode rest ih =>
    intro s hs t ht h
    exact nextShift_injOn mode hs ht (ih (nextShift_lt hs mode) (nextShift_lt ht mode) h)

/-- The mode of the step that a call makes, if the timer expires. -/
def modeOf (n : Noise) (x : Channel.Call) : List Bool :=
  if x == .clockTimer && n.timer == 0 then [n.shortMode] else []

/-- The modes of the steps of a run. -/
def modes (n : Noise) : List Channel.Call → List Bool
  | [] => []
  | x :: rest => n.modeOf x ++ (n.call x).modes rest

/-- **What a call does to the register**: it is stepped when the timer expires. -/
theorem shift_call (n : Noise) (x : Channel.Call) :
    (n.call x).shift = stepped (n.modeOf x) n.shift := by
  cases x with
  | write register v => match register with | 0 | 1 | 2 | 3 => rfl
  | clockTimer =>
    show n.clockTimer.shift = _
    unfold clockTimer modeOf
    by_cases h : n.timer = 0
    · rw [if_pos h, h]
      rfl
    · rw [if_neg h, beq_false_of_ne h]
      rfl
  | setEnabled _ | clockQuarter | clockHalf | fill _ | clearIrq => rfl

/-- Over a run the register takes a step for each time the timer expires, in the mode that is then
set. -/
theorem shift_foldl_call (n : Noise) (calls : List Channel.Call) :
    (calls.foldl call n).shift = stepped (n.modes calls) n.shift := by
  induction calls generalizing n with
  | nil => rfl
  | cons x rest ih =>
    rw [List.foldl_cons, ih, shift_call, modes, stepped, stepped, stepped, List.foldl_append]

/-- **The register never sticks.**  Whatever is done with the noise channel from power-on, its
register is between 1 and `$7FFF`.  In either mode a step sends different registers of 15 bits to
different ones.  So take two channels whose registers differ, and let each run in its own way: if
they are stepped in the same modes, one step after the other, their registers still differ. -/
theorem register_never_sticks (calls : List Channel.Call) :
    let n := calls.foldl call ({} : Noise)
    (1 ≤ n.shift ∧ n.shift ≤ 0x7FFF) ∧
    (∀ shortMode, Set.InjOn (nextShift shortMode) (Set.Iic 0x7FFF)) ∧
    ∀ m : Noise, m.shift ≤ 0x7FFF → m.shift ≠ n.shift →
      ∀ run run' : List Channel.Call, m.modes run' = n.modes run →
        (run'.foldl call m).shift ≠ (run.foldl call n).shift := by
  intro n
  have hn : n.shift < 0x8000 := by
    rw [shift_foldl_call]
    exact stepped_lt _ (by decide)
  have hpos : 0 < n.shift := by
    rw [shift_foldl_call]
    exact stepped_pos _ (by decide)
  refine ⟨⟨hpos, Nat.le_of_lt_succ hn⟩, fun shortMode => ?_, fun m hm hne run run' hmodes heq => ?_⟩
  · exact (nextShift_injOn shortMode).mono fun s hs => Nat.lt_succ_of_le hs
  · rw [shift_foldl_call, shift_foldl_call, hmodes] at heq
    exact hne (stepped_injOn _ (Nat.lt_succ_of_le hm) hn heq)

/-- The one channel comes from power-on and has been switched to the short mode, the other has a
longer period and its timer stands elsewhere.  Both are stepped once in the short mode and once in
the long one. -/
theorem register_never_sticks_switched :
    let cycles (k : Nat) : List Channel.Call := List.replicate k .clockTimer
    let before : List Channel.Call := cycles 3 ++ .write 2 0x80 :: cycles 2
    let run : List Channel.Call := cycles 2 ++ .write 2 0x01 :: cycles 3
    let run' : List Channel.Call := cycles 4 ++ .write 2 0x01 :: cycles 1
    let n := before.foldl call ({} : Noise)
    let m : Noise := { shortMode := true, period := 4, shift := 0x2000 }
    (m.shift ≤ 0x7FFF ∧ m.shift ≠ n.shift ∧ m.modes run' = n.modes run) ∧
      n.modes run = [true, false] ∧ (run'.foldl call m).shift ≠ (run.foldl call n).shift := by
  intro cycles before run run' n m
  have hm : m.shift ≤ 0x7FFF := by decide
  have hne : m.shift ≠ n.shift := by decide
  have hmodes : m.modes run' = n.modes run := by decide
  obtain ⟨-, -, hnever⟩ := register_never_sticks before
  exact ⟨⟨hm, hne, hmodes⟩, by decide, hnever m hm hne run run' hmodes⟩

end Noise
end Apu
end Famicom
