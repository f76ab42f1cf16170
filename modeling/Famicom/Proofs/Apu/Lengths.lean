/-
# How long a voice sounds

A voice sounds as long as its length counter is not empty.  Of what is done with the sound unit the
counter hears three registers, those that switch the channels, set the halt and load it, and the
half beats (`Apu.length_use`).  None of them fills the counter of a voice that is switched off, so
it stays empty (`Apu.Reachable.gated`).  When a voice is left to itself its counter hears nothing
but the half beats (`Apu.length_afterUses`): if it is not halted it is empty after as many of them
as it has been loaded with.
-/

import Famicom.Proofs.Apu.Channels
import Famicom.Proofs.Apu.Pointers

namespace Famicom
namespace Apu

namespace Length

variable {l : Length}

/-- A counter that is switched off is empty. -/
def Gated (l : Length) : Prop := l.enabled = false → l.value = 0

/-- A counter of a channel that is off stays at zero, however often it is clocked. -/
theorem Gated.iterate_clock (h : l.Gated) (n : Nat) : (clock^[n] l).Gated := by
  induction n generalizing l with
  | zero => exact h
  | succ n ih =>
    refine ih ?_
    unfold clock
    split
    · exact h
    · intro he
      show l.value - 1 = 0
      rw [h he]

/-- Switching a channel off sets its counter to zero. -/
theorem gated_setEnabled (l : Length) (enabled : Bool) : (l.setEnabled enabled).Gated :=
  fun he => if_neg (Bool.eq_false_iff.1 he)

/-- A channel that is off takes no length. -/
theorem Gated.load (h : l.Gated) (index : UInt8) : (l.load index).Gated := by
  unfold Length.load
  split
  · rename_i he
    exact fun hn => absurd he (Bool.eq_false_iff.1 hn)
  · exact h

/-- No number of half frames switches a channel on or off. -/
theorem enabled_iterate_clock (l : Length) (n : Nat) : (clock^[n] l).enabled = l.enabled := by
  induction n generalizing l with
  | zero => rfl
  | succ n ih =>
    rw [Function.iterate_succ_apply, ih, clock]
    split <;> rfl

/-- A counter that is switched on takes the length that the upper bits of a byte choose. -/
theorem load_of_enabled (h : l.enabled = true) {w : UInt8} {k : Fin 32} (hk : w.toNat / 8 = k) :
    l.load (w >>> 3) = { l with value := table[k] } := by
  have hi : (w >>> 3).toNat % 32 = k := by
    rw [UInt8.toNat_shiftRight, Nat.shiftRight_eq_div_pow]
    exact (congrArg (· % 32) hk).trans (Nat.mod_eq_of_lt k.isLt)
  rw [load, if_pos h]
  simp only [hi]
  rfl

/-- The byte `$08` names entry 1 of the table, the longest length. -/
example : (({ enabled := true } : Length).load ((0x08 : UInt8) >>> 3)).value = 254 := by decide

/-- Neither does a length. -/
theorem enabled_load (l : Length) (index : UInt8) : (l.load index).enabled = l.enabled := by
  unfold load
  split <;> rfl

/-- A counter that is not halted counts down. -/
theorem value_iterate_clock (h : l.halt = false) (n : Nat) : (clock^[n] l).value = l.value - n := by
  have key : clock^[n] l = { l with value := l.value - n } := by
    induction n with
    | zero => rfl
    | succ n ih =>
      have hh : ¬ ({ l with value := l.value - n } : Length).halt = true := Bool.eq_false_iff.1 h
      rw [Function.iterate_succ_apply', ih, clock, if_neg hh, Nat.sub_sub]
  rw [key]

end Length

/-! ### What reaches the length of a voice

Four voices have a length counter, and each its own registers.  A run that spares these and does
not switch the voice off leaves the counter to the beats. -/

/-- Whether a voice is switched on. -/
def Use.switchesOn (v : Voice) : Use → Bool
  | write address w => address == 0x4015 && w &&& v.bit != 0
  | _ => false

/-- Whether a voice is left to itself: neither are the channels switched nor is one of its own
registers written. -/
def Use.sparesVoice (v : Voice) : Use → Bool
  | write address _ => address != 0x4015 && !v.registers.contains address
  | _ => true

namespace Voice

/-- The register that sets the halt of the length counter. -/
def controlRegister : Voice → UInt16
  | pulse1 => 0x4000
  | pulse2 => 0x4004
  | triangle => 0x4008
  | noise => 0x400C

/-- The register that loads the length counter. -/
def lengthRegister : Voice → UInt16
  | pulse1 => 0x4003
  | pulse2 => 0x4007
  | triangle => 0x400B
  | noise => 0x400F

/-- The bit that halts the length counter. -/
def haltBit : Voice → UInt8
  | triangle => 0x80
  | pulse1 | pulse2 | noise => 0x20

/-- The length counter of a voice after something has been done, but for the beats. -/
def setLength (v : Voice) (l : Length) : Use → Length
  | .write address w =>
    if address = 0x4015 then l.setEnabled (w &&& v.bit != 0)
    else if address = v.controlRegister then { l with halt := w &&& v.haltBit != 0 }
    else if address = v.lengthRegister then l.load (w >>> 3)
    else l
  | _ => l

variable {v : Voice} {l : Length} {x : Use}

/-- The register with the halt bit is one of the voice's own. -/
theorem controlRegister_mem (v : Voice) : v.controlRegister ∈ v.registers := by
  cases v <;> decide

/-- The register that loads the length is one of the voice's own. -/
theorem lengthRegister_mem (v : Voice) : v.lengthRegister ∈ v.registers := by
  cases v <;> decide

/-- A write elsewhere does nothing to the length, if it does not switch the channels. -/
theorem setLength_of_not_mem {address : UInt16} (hs : address ≠ 0x4015) (h : address ∉ v.registers)
    (l : Length) (w : UInt8) : v.setLength l (.write address w) = l := by
  have hc : address ≠ v.controlRegister := fun he => h (he ▸ v.controlRegister_mem)
  have hl : address ≠ v.lengthRegister := fun he => h (he ▸ v.lengthRegister_mem)
  rw [setLength, if_neg hs, if_neg hc, if_neg hl]

/-- What spares a voice leaves its length as the beats make it. -/
theorem setLength_of_spares (h : x.sparesVoice v = true) (l : Length) : v.setLength l x = l := by
  cases x with
  | write address w =>
    rw [Use.sparesVoice, Bool.and_eq_true, bne_iff_ne, Bool.not_eq_true', List.contains_eq_mem,
      decide_eq_false_iff_not] at h
    exact setLength_of_not_mem h.1 h.2 l w
  | tick | readStatus | fill | clearSamples => rfl

/-- The length register loads the entry that its upper five bits name. -/
theorem setLength_lengthRegister (v : Voice) (l : Length) (w : UInt8) :
    v.setLength l (.write v.lengthRegister w) = l.load (w >>> 3) := by
  cases v <;> rfl

/-- Nothing fills the counter of a voice that is switched off. -/
theorem gated_setLength (h : l.Gated) (x : Use) : (v.setLength l x).Gated := by
  unfold setLength
  split
  · split_ifs
    · exact Length.gated_setEnabled _ _
    · exact h
    · exact h.load _
    · exact h
  · exact h

/-- Only `0x4015` switches a voice on. -/
theorem enabled_setLength (hx : x.switchesOn v = false) (h : l.enabled = false) :
    (v.setLength l x).enabled = false := by
  unfold setLength
  split
  · rename_i address w
    split_ifs with hs
    · rw [Use.switchesOn, beq_iff_eq.2 hs] at hx
      exact hx
    · exact h
    · rw [Length.enabled_load, h]
    · exact h
  · exact h

end Voice

/-! ### The length of a voice in the sound unit

Of all uses of the sound unit the length of a voice hears three kinds: the beats, the two registers,
and the switch of all channels. -/

/-- The length counter of a voice. -/
def length (a : Apu) : Voice → Length
  | .pulse1 => a.pulse1.length
  | .pulse2 => a.pulse2.length
  | .triangle => a.triangle.length
  | .noise => a.noise.length

/-- The output of a voice. -/
def output (a : Apu) : Voice → Nat
  | .pulse1 => a.pulse1.output
  | .pulse2 => a.pulse2.output
  | .triangle => a.triangle.output
  | .noise => a.noise.output

variable {a : Apu} {v : Voice} {x : Use}

/-- Taken alone, a voice has the length that it has among the others. -/
theorem length_solo (a : Apu) (v : Voice) : (a.solo (.voice v)).length v = a.length v := by
  cases v <;> rfl

/-- A beat clocks each counter once for each half frame in it. -/
theorem length_hear (a : Apu) (beat : Beat) (v : Voice) :
    (a.hear beat).length v = Length.clock^[beat.halves] (a.length v) := by
  cases beat <;> cases v <;> rfl

/-- The timers do not clock the counters. -/
theorem length_clockTimers (a : Apu) (v : Voice) : a.clockTimers.length v = a.length v := by
  have pulse (p : Pulse) (c : Prop) [Decidable c] :
      (if c then p.clockTimer else p).length = p.length := by
    unfold Pulse.clockTimer
    split_ifs <;> rfl
  have noise (n : Noise) (c : Prop) [Decidable c] :
      (if c then n.clockTimer else n).length = n.length := by
    unfold Noise.clockTimer
    split_ifs <;> rfl
  have triangle (t : Triangle) : t.clockTimer.length = t.length := by
    unfold Triangle.clockTimer
    split <;> rfl
  rw [clockTimers_eq]
  cases v with
  | pulse1 | pulse2 => exact pulse _ _
  | triangle => exact triangle _
  | noise => exact noise _ _

/-- A cycle clocks each counter as often as its beat has half frames. -/
theorem length_tick (a : Apu) (v : Voice) :
    a.tick.length v = Length.clock^[a.sequencer.tick.1.halves] (a.length v) := by
  rw [← length_clockTimers a v, tick_eq_hear]
  exact length_hear { a.clockTimers with sequencer := a.sequencer.tick.2 } _ v

/-- A write does to a counter what the voice makes of it; then comes the beat, if the write has
one. -/
theorem length_write (a : Apu) (address : UInt16) (w : UInt8) (v : Voice) :
    (a.write address w).length v =
      Length.clock^[(a.beatOf (.write address w)).halves]
        (v.setLength (a.length v) (.write address w)) := by
  by_cases hf : address = 0x4017
  · subst hf
    rw [write_eq_hear, Voice.setLength_of_not_mem (by decide) (by cases v <;> decide)]
    exact length_hear { a with sequencer := (a.sequencer.write w).2 } _ v
  rw [beatOf, if_neg hf]
  by_cases hs : address = 0x4015
  · subst hs
    cases v <;> rfl
  by_cases hm : address ∈ v.registers
  · have own :
        ∀ r ∈ v.registers, (a.write r w).length v = v.setLength (a.length v) (.write r w) := by
      cases v <;> simp only [Voice.registers, List.forall_mem_cons]
      case pulse1 | pulse2 => exact ⟨rfl, rfl, rfl, rfl, nofun⟩
      case triangle | noise => exact ⟨rfl, rfl, rfl, nofun⟩
    exact own address hm
  · have hsolo := solo_write_of_not_mem (c := .voice v) hs hf hm a w
    rw [Voice.setLength_of_not_mem hs hm, ← length_solo, hsolo, length_solo]
    rfl

/-- **What reaches a length counter**: the half beats, and the three registers that it hears. -/
theorem length_use (a : Apu) (x : Use) (v : Voice) :
    (a.use x).length v = Length.clock^[(a.beatOf x).halves] (v.setLength (a.length v) x) := by
  cases x with
  | tick => exact length_tick a v
  | write address w => exact length_write a address w v
  | readStatus | fill | clearSamples => cases v <;> rfl

/-- **In every sound unit that can be come to** the length counter of a voice that is switched off
is empty. -/
theorem Reachable.gated (h : a.Reachable) (v : Voice) : (a.length v).Gated := by
  induction h with
  | ofRate rate => cases v <;> exact fun _ => rfl
  | use x _ ih =>
    rw [length_use]
    exact (Voice.gated_setLength ih x).iterate_clock _

/-- A voice that is switched off stays so until it is switched on. -/
theorem enabled_use (hx : x.switchesOn v = false) (h : (a.length v).enabled = false) :
    ((a.use x).length v).enabled = false := by
  rw [length_use, Length.enabled_iterate_clock]
  exact Voice.enabled_setLength hx h

/-- **A voice that is left to itself** hears the half beats. -/
theorem length_afterUses {uses : List Use} (h : ∀ x ∈ uses, x.sparesVoice v = true) (a : Apu) :
    (a.afterUses uses).length v = Length.clock^[a.halves uses] (a.length v) := by
  induction uses generalizing a with
  | nil => rfl
  | cons x rest ih =>
    have hx := h x (List.mem_cons_self ..)
    have hsum : a.halves (x :: rest) = (a.use x).halves rest + (a.beatOf x).halves :=
      Nat.add_comm ..
    rw [hsum, Function.iterate_add_apply]
    refine (ih (fun y hy => h y (List.mem_cons_of_mem _ hy)) (a.use x)).trans ?_
    rw [length_use, Voice.setLength_of_spares hx]

/-- The status shows whether a voice sounds. -/
theorem readStatus_and_bit (a : Apu) (v : Voice) :
    a.readStatus.1 &&& v.bit ≠ 0 ↔ 0 < (a.length v).value := by
  have hv : a.active (.voice v) = (a.length v).active := by cases v <;> rfl
  have h : (a.status &&& v.bit != 0) = (a.length v).active := (a.status_shows.1 (.voice v)).trans hv
  rw [← bne_iff_ne]
  exact (Bool.eq_iff_iff.1 h).trans decide_eq_true_iff

/-- A voice that does not sound is silent, but for the triangle, which holds its level. -/
theorem output_of_value (h : (a.length v).value = 0) (hv : v ≠ .triangle) : a.output v = 0 := by
  have hn : (!(a.length v).active) = true := by rw [Length.active, h]; rfl
  cases v with
  | triangle => exact absurd rfl hv
  | pulse1 | pulse2 =>
    have hn : (!Length.active (Pulse.length _)) = true := hn
    exact if_pos (by rw [hn, Bool.true_or, Bool.true_or])
  | noise =>
    have hn : (!a.noise.length.active) = true := hn
    exact if_pos (by rw [hn, Bool.or_true])

/-- **How long a voice sounds.**  In every sound unit that can be come to the length counter of a
voice that is switched off is empty.  So from a write that switches a voice off until one that
switches it on the status does not show it as active, whatever is done, and it is silent, but for
the triangle, which holds its level.

If the length counter of a voice that is switched on and not halted is loaded with a length from
the table, and the voice is left to itself from then on, the status shows it as active until it has
heard so many half beats, and not from then on. -/
theorem voices_sound_for_length (h : a.Reachable) (v : Voice) :
    ((a.length v).enabled = false → (a.length v).value = 0) ∧
    (∀ (w : UInt8) (uses : List Use), w &&& v.bit = 0 → (∀ x ∈ uses, x.switchesOn v = false) →
      let b := a.afterUses (.write 0x4015 w :: uses)
      b.readStatus.1 &&& v.bit = 0 ∧ (v ≠ .triangle → b.output v = 0)) ∧
    ∀ (k : Fin 32) (w : UInt8) (uses : List Use), (a.length v).enabled = true →
      (a.length v).halt = false →
      w.toNat / 8 = k → (∀ x ∈ uses, x.sparesVoice v = true) →
      let b := a.write v.lengthRegister w
      ((b.afterUses uses).readStatus.1 &&& v.bit ≠ 0 ↔ b.halves uses < Length.table[k]) := by
  refine ⟨h.gated v, fun w uses hw hu => ?_, fun k w uses he hh hk hu => ?_⟩
  · intro b
    -- the write has switched the voice off, and nothing in the run switches it on again
    have hoff : ((a.use (.write 0x4015 w)).length v).enabled = false := by
      rw [length_use, Length.enabled_iterate_clock]
      exact bne_eq_false_iff_eq.2 hw
    have hlast : (b.length v).enabled = false :=
      afterUses_preserves (P := fun a => (a.length v).enabled = false)
        (fun _ _ hx ha => enabled_use hx ha) hoff hu
    have hempty : (b.length v).value = 0 := (h.afterUses _).gated v hlast
    refine ⟨?_, output_of_value hempty⟩
    by_contra hne
    exact absurd ((readStatus_and_bit b v).1 hne) (by rw [hempty]; exact Nat.lt_irrefl 0)
  · intro b
    -- a length register has no beat, so right after the write the counter is as loaded
    have hb : b.length v = { a.length v with value := Length.table[k] } := by
      have hbeat : a.beatOf (.write v.lengthRegister w) = .none := if_neg (by cases v <;> decide)
      rw [length_write, hbeat, Voice.setLength_lengthRegister, Length.load_of_enabled he hk]
      rfl
    have hhalt : (b.length v).halt = false := by
      rw [hb]
      exact hh
    rw [readStatus_and_bit, length_afterUses hu, Length.value_iterate_clock hhalt, hb]
    exact Nat.sub_pos_iff_lt

/-- The noise is switched off, and a length that is loaded then does not sound.  While it is
switched on it sounds for the two half beats of the fourth length, those of the writes to the
sequencer. -/
theorem voices_sound_for_length_noise :
    let a := (ofRate 44100).use (.write 0x4015 0x08)
    let once : List Use := [.write 0x4017 0x80, .write 0x4003 0x00, .tick]
    let off := a.afterUses (.write 0x4015 0x07 :: .write 0x400F 0x18 :: once)
    let on := a.write 0x400F 0x18
    a.Reachable ∧ (a.length .noise).enabled = true ∧ (a.length .noise).halt = false ∧
      off.readStatus.1 &&& 0x08 = 0 ∧ off.output .noise = 0 ∧
      (on.afterUses once).readStatus.1 &&& 0x08 ≠ 0 ∧
      (on.afterUses (once ++ once)).readStatus.1 &&& 0x08 = 0 := by
  intro a once off on
  have ha : a.Reachable := (Reachable.ofRate 44100).use _
  obtain ⟨-, hoff, hon⟩ := voices_sound_for_length ha .noise
  obtain ⟨hstatus, hsilent⟩ := hoff 0x07 (.write 0x400F 0x18 :: once) (by decide) (by decide)
  have honce := hon 3 0x18 once rfl rfl rfl (by decide)
  have htwice := hon 3 0x18 (once ++ once) rfl rfl rfl (by decide)
  have h₁ : on.halves once = 1 := rfl
  have h₂ : on.halves (once ++ once) = 2 := rfl
  refine ⟨ha, rfl, rfl, hstatus, hsilent (by decide), honce.2 ?_, ?_⟩
  · exact h₁ ▸ by decide
  · by_contra hne
    exact absurd (h₂ ▸ htwice.1 hne) (by decide)

end Apu
end Famicom
