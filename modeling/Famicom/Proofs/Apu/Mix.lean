/-
# The level of the mix

The five outputs are small numbers: a volume or a step of a wave is at most 15, and the level of a
sample at most 127.  A network gives more for more that comes in (`Apu.Mixer.network_mono`), so no
level is above the one for the greatest outputs.  In exact arithmetic that one is 0.9999994, which
is below 1, though not by much.
-/

import Famicom.Proofs.Apu.Decay
import Famicom.Proofs.Apu.Playback
import Mathlib.Algebra.Order.Field.Rat
import Mathlib.Tactic.GCongr
import Mathlib.Tactic.NormNum
import Mathlib.Tactic.Positivity

namespace Famicom
namespace Apu

/-- An envelope in a channel, if no call does anything to it but calls to it. -/
theorem Envelope.bounded_foldl {σ : Type} {call : σ → Channel.Call → σ} {envelope : σ → Envelope}
    (hc : ∀ s x, envelope (call s x) = envelope s ∨ ∃ y, envelope (call s x) = (envelope s).call y)
    {s : σ} (h : (envelope s).Bounded) (calls : List Channel.Call) :
    (envelope (calls.foldl call s)).Bounded := by
  refine List.foldlRecOn (motive := fun s => (envelope s).Bounded) calls call h fun s hs x _ => ?_
  obtain hx | ⟨y, hx⟩ := hc s x
  · rwa [hx]
  · rw [hx]
    exact hs.call y

namespace Pulse

/-- **What a call does to the envelope** of a pulse channel is nothing, or a call to it. -/
theorem envelope_call (p : Pulse) (x : Channel.Call) :
    (p.call x).envelope = p.envelope ∨ ∃ y, (p.call x).envelope = p.envelope.call y := by
  cases x with
  | write register v =>
    match register with
    | 0 => exact .inr ⟨.write v, rfl⟩
    | 1 | 2 => exact .inl rfl
    | 3 => exact .inr ⟨.restart, rfl⟩
  | clockTimer =>
    left
    show p.clockTimer.envelope = _
    unfold clockTimer
    split_ifs <;> rfl
  | clockQuarter => exact .inr ⟨.clock, rfl⟩
  | setEnabled _ | clockHalf | fill _ | clearIrq => exact .inl rfl

/-- The output of a pulse channel is one of 16 volumes. -/
theorem output_le (number : Number) (calls : List Channel.Call) :
    (calls.foldl call { number }).output ≤ 15 := by
  have h : (calls.foldl call { number }).envelope.Bounded :=
    Envelope.bounded_foldl envelope_call Envelope.bounded_initial calls
  unfold output
  split_ifs
  · exact Nat.zero_le 15
  · exact h.volume_le

end Pulse

namespace Noise

/-- A call to the noise channel is one to its envelope, or does not reach it. -/
theorem envelope_call (n : Noise) (x : Channel.Call) :
    (n.call x).envelope = n.envelope ∨ ∃ y, (n.call x).envelope = n.envelope.call y := by
  cases x with
  | write register v =>
    match register with
    | 0 => exact .inr ⟨.write v, rfl⟩
    | 1 | 2 => exact .inl rfl
    | 3 => exact .inr ⟨.restart, rfl⟩
  | clockTimer =>
    left
    show n.clockTimer.envelope = _
    unfold clockTimer
    split_ifs <;> rfl
  | clockQuarter => exact .inr ⟨.clock, rfl⟩
  | setEnabled _ | clockHalf | fill _ | clearIrq => exact .inl rfl

/-- The output of the noise channel is one of 16 volumes. -/
theorem output_le (calls : List Channel.Call) : (calls.foldl call {}).output ≤ 15 := by
  have h : (calls.foldl call ({} : Noise)).envelope.Bounded :=
    Envelope.bounded_foldl envelope_call Envelope.bounded_initial calls
  unfold output
  split_ifs
  · exact Nat.zero_le 15
  · exact h.volume_le

end Noise

namespace Triangle

variable {t : Triangle}

/-- A call leaves the triangle within its 32 steps. -/
theorem step_call_lt (h : t.step < 32) (x : Channel.Call) : (t.call x).step < 32 := by
  cases x with
  | write register v => match register with | 0 | 1 | 2 | 3 => exact h
  | clockTimer =>
    show t.clockTimer.step < 32
    unfold clockTimer
    split_ifs
    · exact Nat.mod_lt _ (by decide)
    · exact h
    · exact h
  | setEnabled _ | clockQuarter | clockHalf | fill _ | clearIrq => exact h

/-- So it is within them after any calls. -/
theorem step_lt (calls : List Channel.Call) : (calls.foldl call ({} : Triangle)).step < 32 :=
  List.foldlRecOn (motive := fun t : Triangle => t.step < 32) calls call (by decide) fun _ h x _ =>
    step_call_lt h x

end Triangle

/-- The level of the sample player has seven bits, whatever has been played or written. -/
theorem Dmc.level_le (calls : List Channel.Call) : (calls.foldl call ({} : Dmc)).level ≤ 127 :=
  (List.foldlRecOn calls call inRange_initial fun _ h x _ => h.call x : InRange _).level_le

namespace Mixer

/-- A number of the mixer is the number. -/
theorem number_eq (n : ℕ) : (number n : ℚ) = n := by
  show Rat.ofScientific n false 0 = n
  simp [Rat.ofScientific_false_def]

/-- A network is silent at zero, and otherwise follows the formula. -/
theorem network_eq (gain load x : ℚ) :
    network gain load x = if x = 0 then 0 else gain / (load / x + 100) := by
  unfold network
  norm_num

variable {gain load x y : ℚ}

/-- A network does not go below zero. -/
theorem network_nonneg (hg : 0 ≤ gain) (hl : 0 ≤ load) (hx : 0 ≤ x) : 0 ≤ network gain load x := by
  rw [network_eq]
  split_ifs
  · exact le_rfl
  · positivity

/-- **A network gives more for more that comes in.** -/
theorem network_mono (hg : 0 ≤ gain) (hl : 0 ≤ load) (hx : 0 ≤ x) (h : x ≤ y) :
    network gain load x ≤ network gain load y := by
  rcases hx.eq_or_lt with rfl | hpos
  · rw [network_eq, if_pos rfl]
    exact network_nonneg hg hl h
  · have hy : 0 < y := hpos.trans_le h
    have : 0 < load / y + 100 := by positivity
    rw [network_eq, network_eq, if_neg hpos.ne', if_neg hy.ne']
    gcongr

/-- The level is at least zero. -/
theorem level_nonneg (pulse1 pulse2 triangle noise dmc : ℕ) :
    (0 : ℚ) ≤ level pulse1 pulse2 triangle noise dmc := by
  unfold level pulseLevel restLevel
  simp only [number_eq]
  exact add_nonneg (network_nonneg (by norm_num) (by norm_num) (by positivity))
    (network_nonneg (by norm_num) (by norm_num) (by positivity))

/-- The level rises with every output. -/
theorem level_mono {p₁ q₁ p₂ q₂ t u n m d e : ℕ} (h₁ : p₁ ≤ q₁) (h₂ : p₂ ≤ q₂) (ht : t ≤ u)
    (hn : n ≤ m) (hd : d ≤ e) : (level p₁ p₂ t n d : ℚ) ≤ level q₁ q₂ u m e := by
  unfold level pulseLevel restLevel
  simp only [number_eq]
  refine add_le_add (network_mono (by norm_num) (by norm_num) (by positivity) ?_)
    (network_mono (by norm_num) (by norm_num) (by positivity) ?_)
  · gcongr
  · gcongr

/-- With all channels at their loudest the level is below one. -/
theorem level_greatest_lt : (level 15 15 15 15 127 : ℚ) < 1 := by
  norm_num [level, pulseLevel, restLevel, network, number]

end Mixer

/-- The level of the mixed channels in exact arithmetic. -/
def exactLevel (a : Apu) : ℚ :=
  Mixer.level a.pulse1.output a.pulse2.output a.triangle.output a.noise.output a.dmc.level

variable {a : Apu}

/-- The outputs of the channels are in their ranges. -/
structure OutputsBounded (a : Apu) : Prop where
  pulse1 : a.pulse1.output ≤ 15
  pulse2 : a.pulse2.output ≤ 15
  triangle : a.triangle.output ≤ 15
  noise : a.noise.output ≤ 15
  dmc : a.dmc.level ≤ 127

/-- **In every sound unit that can be come to** the outputs of the channels are in their ranges. -/
theorem Reachable.outputsBounded (h : a.Reachable) : a.OutputsBounded where
  pulse1 := by
    obtain ⟨calls, hc : a.pulse1 = calls.foldl Pulse.call { number := .one }⟩ :=
      h.channel (.voice .pulse1)
    rw [hc]
    exact Pulse.output_le .one calls
  pulse2 := by
    obtain ⟨calls, hc : a.pulse2 = calls.foldl Pulse.call { number := .two }⟩ :=
      h.channel (.voice .pulse2)
    rw [hc]
    exact Pulse.output_le .two calls
  triangle := by
    obtain ⟨calls, hc : a.triangle = calls.foldl Triangle.call {}⟩ := h.channel (.voice .triangle)
    rw [hc]
    exact Triangle.output_le (Triangle.step_lt calls)
  noise := by
    obtain ⟨calls, hc : a.noise = calls.foldl Noise.call {}⟩ := h.channel (.voice .noise)
    rw [hc]
    exact Noise.output_le calls
  dmc := by
    obtain ⟨calls, hc : a.dmc = calls.foldl Dmc.call {}⟩ := h.channel .dmc
    rw [hc]
    exact Dmc.level_le calls

/-- **The mix keeps its range.**  In every sound unit that can be come to, also by resets
(`reachable_reset`), the output of each voice is at most 15 and the level of the sample at most
127, and what the mixer makes of them in exact arithmetic is not below zero and below 1.  The level
that it makes does not fall when an output rises. -/
theorem mix_keeps_range (h : a.Reachable) :
    (a.pulse1.output ≤ 15 ∧ a.pulse2.output ≤ 15 ∧ a.triangle.output ≤ 15 ∧ a.noise.output ≤ 15 ∧
      a.dmc.level ≤ 127) ∧
    (0 ≤ a.exactLevel ∧ a.exactLevel < 1) ∧
    ∀ p₁ q₁ p₂ q₂ t u n m d e : ℕ, p₁ ≤ q₁ → p₂ ≤ q₂ → t ≤ u → n ≤ m → d ≤ e →
      (Mixer.level p₁ p₂ t n d : ℚ) ≤ Mixer.level q₁ q₂ u m e := by
  obtain ⟨h₁, h₂, ht, hn, hd⟩ := h.outputsBounded
  refine ⟨⟨h₁, h₂, ht, hn, hd⟩, ⟨Mixer.level_nonneg _ _ _ _ _, ?_⟩,
    fun _ _ _ _ _ _ _ _ _ _ => Mixer.level_mono⟩
  calc a.exactLevel ≤ Mixer.level 15 15 15 15 127 := Mixer.level_mono h₁ h₂ ht hn hd
    _ < 1 := Mixer.level_greatest_lt

/-- At power-on the triangle stands at the top of its wave; the level of the sample is set as high
as it goes. -/
theorem mix_keeps_range_loud :
    let a := (ofRate 44100).use (.write 0x4011 0xFF)
    a.Reachable ∧ a.triangle.output = 15 ∧ a.dmc.level = 127 ∧ a.exactLevel < 1 ∧
      (Mixer.level 0 0 0 0 127 : ℚ) ≤ Mixer.level 0 0 15 0 127 := by
  intro a
  have ha : a.Reachable := (Reachable.ofRate 44100).use _
  obtain ⟨-, ⟨-, hlt⟩, hmono⟩ := mix_keeps_range ha
  exact ⟨ha, rfl, rfl, hlt,
    hmono 0 0 0 0 0 15 0 0 127 127 (by decide) (by decide) (by decide) (by decide) (by decide)⟩

end Apu
end Famicom
