/-
# Channels that do not hear each other

The five channels share the clock, the sequencer and the register that switches them.  Of a run a
channel hears the cycles, the writes to the sequencer and to its own registers, and its own bit
whenever the channels are switched (`Apu.Channel.heard?`).  What it goes by is its own state, the
count of cycles and the sequencer without its request: all else could be as it is at power-on
(`Apu.solo`, `Apu.solo_use`), and what the channel does not hear does not reach this
(`Apu.solo_use_of_heard?`).  So in two runs of which a channel hears the same it is the same at
every point, whatever else happens in them.
-/

import Famicom.Proofs.Apu.Beats

namespace Famicom
namespace Apu

/-- The channels that have a length counter. -/
inductive Voice where
  | pulse1
  | pulse2
  | triangle
  | noise
deriving DecidableEq, Repr

namespace Voice

/-- The registers of a voice.  The first sets the halt of the length counter, the last loads it. -/
def registers : Voice → List UInt16
  | pulse1 => [0x4000, 0x4001, 0x4002, 0x4003]
  | pulse2 => [0x4004, 0x4005, 0x4006, 0x4007]
  | triangle => [0x4008, 0x400A, 0x400B]
  | noise => [0x400C, 0x400E, 0x400F]

/-- The bit of a voice in the register that switches the channels, and in the status. -/
def bit : Voice → UInt8
  | pulse1 => 0x01
  | pulse2 => 0x02
  | triangle => 0x04
  | noise => 0x08

end Voice

/-- The channels. -/
inductive Channel where
  | voice (v : Voice)
  | dmc
deriving DecidableEq, Repr

namespace Channel

/-- What the state of a channel is. -/
def State : Channel → Type
  | voice .pulse1 | voice .pulse2 => Pulse
  | voice .triangle => Triangle
  | voice .noise => Noise
  | dmc => Dmc

/-- The registers of a channel. -/
def registers : Channel → List UInt16
  | voice v => v.registers
  | dmc => [0x4010, 0x4011, 0x4012, 0x4013]

/-- The bit of a channel in the register that switches the channels, and in the status. -/
def bit : Channel → UInt8
  | voice v => v.bit
  | dmc => 0x10

/-- What a channel hears when something is done with the sound unit: of the switches its own one,
and of the bytes of a sample nothing unless it plays it. -/
def heard? (c : Channel) : Use → Option Use
  | .tick => some .tick
  | .write address v =>
    if address = 0x4015 then some (.write 0x4015 (v &&& c.bit))
    else if address = 0x4017 ∨ address ∈ c.registers then some (.write address v)
    else none
  | .fill v => if c = dmc then some (.fill v) else none
  | .readStatus | .clearSamples => none

end Channel

/-- The state of a channel. -/
def channel (a : Apu) : (c : Channel) → c.State
  | .voice .pulse1 => a.pulse1
  | .voice .pulse2 => a.pulse2
  | .voice .triangle => a.triangle
  | .voice .noise => a.noise
  | .dmc => a.dmc

/-- Whether a channel is active: a voice that sounds, or a sample of which bytes are left to be
read. -/
def active (a : Apu) : Channel → Bool
  | .voice .pulse1 => a.pulse1.length.active
  | .voice .pulse2 => a.pulse2.length.active
  | .voice .triangle => a.triangle.length.active
  | .voice .noise => a.noise.length.active
  | .dmc => a.dmc.active

/-- Of the switch of all channels each hears one bit, and of the other registers its own. -/
example : (Channel.voice .noise).heard? (.write 0x4015 0xFF) = some (.write 0x4015 0x08) ∧
    (Channel.voice .noise).heard? (.write 0x4000 0x3F) = none := by decide

/-- **What the status shows**: which channels are active, and the two requests. -/
theorem status_shows (a : Apu) :
    (∀ c : Channel, (a.status &&& c.bit != 0) = a.active c) ∧
      (a.status &&& 0x40 != 0) = a.sequencer.irq ∧ (a.status &&& 0x80 != 0) = a.dmc.irq := by
  unfold status active
  generalize a.pulse1.length.active = b₀, a.pulse2.length.active = b₁,
    a.triangle.length.active = b₂, a.noise.length.active = b₃, a.dmc.active = b₄,
    a.sequencer.irq = b₆, a.dmc.irq = b₇
  refine ⟨?_, ?_, ?_⟩
  · rintro ((_ | _ | _ | _) | _) <;> revert b₀ b₁ b₂ b₃ b₄ b₆ b₇ <;> decide
  · revert b₀ b₁ b₂ b₃ b₄ b₆ b₇
    decide
  · revert b₀ b₁ b₂ b₃ b₄ b₆ b₇
    decide

/-- The sound unit as it is for a channel: the channel itself, the count of cycles, and the
sequencer without its request.  All else is as it is at power-on. -/
def solo (a : Apu) (c : Channel) : Apu :=
  let rest : Apu := { cycles := a.cycles, sequencer := { a.sequencer with irq := false } }
  match c with
  | .voice .pulse1 => { rest with pulse1 := a.pulse1 }
  | .voice .pulse2 => { rest with pulse2 := a.pulse2 }
  | .voice .triangle => { rest with triangle := a.triangle }
  | .voice .noise => { rest with noise := a.noise }
  | .dmc => { rest with dmc := a.dmc }

variable {a b : Apu} {c : Channel}

/-- Taking a channel alone does not change it. -/
theorem channel_solo (a : Apu) (c : Channel) : (a.solo c).channel c = a.channel c := by
  rcases c with (_ | _ | _ | _) | _ <;> rfl

/-- At power-on a channel cannot tell what the sample rate is. -/
theorem solo_ofRate (rate : Nat) (c : Channel) : (ofRate rate).solo c = solo {} c := rfl

/-- The timer of a channel runs by itself. -/
theorem solo_clockTimers (a : Apu) (c : Channel) :
    a.clockTimers.solo c = (a.solo c).clockTimers.solo c := by
  rw [clockTimers_eq, clockTimers_eq (a.solo c)]
  rcases c with (_ | _ | _ | _) | _ <;> rfl

/-- A channel hears a beat by itself. -/
theorem solo_hear (a : Apu) (beat : Beat) (c : Channel) :
    (a.hear beat).solo c = ((a.solo c).hear beat).solo c := by
  rcases c with (_ | _ | _ | _) | _ <;> cases beat <;> rfl

/-- What is alone is alone. -/
theorem solo_solo (a : Apu) (c : Channel) : (a.solo c).solo c = a.solo c := by
  rcases c with (_ | _ | _ | _) | _ <;> rfl

/-- Alone, a channel keeps the sequencer but for its request, which no channel hears. -/
theorem sequencer_solo (a : Apu) (c : Channel) :
    (a.solo c).sequencer = { a.sequencer with irq := false } := by
  rcases c with (_ | _ | _ | _) | _ <;> rfl

/-- The sequencer may be set before or after. -/
theorem solo_withSequencer (a : Apu) (s : Sequencer) (c : Channel) :
    ({ a with sequencer := s } : Apu).solo c =
      { a.solo c with sequencer := { s with irq := false } } := by
  rcases c with (_ | _ | _ | _) | _ <;> rfl

/-- Taking a sample changes no channel. -/
theorem solo_resample (a : Apu) (c : Channel) : a.resample.solo c = a.solo c := by
  rcases c with (_ | _ | _ | _) | _ <;> rfl

/-- A beat reaches a channel whatever request the sequencer makes. -/
theorem solo_hear_congr {s t : Sequencer} (h : a.solo c = b.solo c)
    (hs : { s with irq := false } = { t with irq := false }) (beat : Beat) :
    ({ a with sequencer := s }.hear beat).solo c =
      ({ b with sequencer := t }.hear beat).solo c := by
  have hst :
      ({ a with sequencer := s } : Apu).solo c = ({ b with sequencer := t } : Apu).solo c := by
    rw [solo_withSequencer a s, solo_withSequencer b t, h, hs]
  rw [solo_hear, hst, ← solo_hear]

/-- **A cycle does to a channel what it would do to the channel alone.** -/
theorem solo_tick (a : Apu) (c : Channel) : a.tick.solo c = (a.solo c).tick.solo c := by
  rw [tick_eq_hear, tick_eq_hear (a.solo c), solo_resample, solo_resample, sequencer_solo]
  refine solo_hear_congr (solo_clockTimers a c) ?_ _
  rfl

/-- A write to any register does so too. -/
theorem solo_write (a : Apu) (address : UInt16) (v : UInt8) (c : Channel) :
    (a.write address v).solo c = ((a.solo c).write address v).solo c := by
  by_cases h : address = 0x4017
  · subst h
    rw [write_eq_hear, write_eq_hear (a.solo c), sequencer_solo]
    refine solo_hear_congr (solo_solo a c).symm ?_ _
    rfl
  · unfold write
    split
    case h_20 => exact absurd rfl h
    all_goals rcases c with (_ | _ | _ | _) | _ <;> rfl

/-- **A channel goes by nothing but what is there for it.** -/
theorem solo_use (a : Apu) (x : Use) (c : Channel) :
    (a.use x).solo c = ((a.solo c).use x).solo c := by
  cases x with
  | tick => exact solo_tick a c
  | write address v => exact solo_write a address v c
  | readStatus | fill | clearSamples => rcases c with (_ | _ | _ | _) | _ <;> rfl

/-- Two sound units in which a channel is the same by itself still agree on it after any run. -/
theorem solo_afterUses_congr (h : a.solo c = b.solo c) (uses : List Use) :
    (a.afterUses uses).solo c = (b.afterUses uses).solo c := by
  induction uses generalizing a b with
  | nil => exact h
  | cons x rest ih =>
    refine ih ?_
    rw [solo_use, h, ← solo_use]

/-- The other channels' registers do not reach a channel. -/
theorem solo_write_of_not_mem {address : UInt16} (hs : address ≠ 0x4015) (hf : address ≠ 0x4017)
    (h : address ∉ c.registers) (a : Apu) (v : UInt8) : (a.write address v).solo c = a.solo c := by
  unfold write
  split
  case h_19 => exact absurd rfl hs
  case h_20 => exact absurd rfl hf
  all_goals
    rcases c with (_ | _ | _ | _) | _ <;> first | rfl | exact absurd (by decide) h

/-- When the channels are switched a channel sees its own bit. -/
theorem solo_enableChannels (a : Apu) (v : UInt8) (c : Channel) :
    (a.enableChannels v).solo c = (a.enableChannels (v &&& c.bit)).solo c := by
  have own (bit : UInt8) : v &&& bit &&& bit = v &&& bit := by rw [UInt8.and_assoc, UInt8.and_self]
  rcases c with (_ | _ | _ | _) | _ <;>
    simp only [enableChannels, solo, Channel.bit, Voice.bit, own]

/-- **What a channel does not hear does not reach it**, and what it hears is all that reaches it. -/
theorem solo_use_of_heard? (a : Apu) (x : Use) (c : Channel) :
    (a.use x).solo c = (a.afterUses (c.heard? x).toList).solo c := by
  cases x with
  | tick => rfl
  | write address v =>
    rw [Channel.heard?]
    split_ifs with hs hf
    · subst hs
      exact solo_enableChannels a v c
    · rfl
    · exact solo_write_of_not_mem hs (fun h => hf (.inl h)) (fun h => hf (.inr h)) a v
  | fill v => rcases c with (_ | _ | _ | _) | _ <;> rfl
  | readStatus | clearSamples => rcases c with (_ | _ | _ | _) | _ <;> rfl

/-- **A run is to a channel what it hears of it.** -/
theorem solo_afterUses (a : Apu) (uses : List Use) (c : Channel) :
    (a.afterUses uses).solo c = (a.afterUses (uses.filterMap c.heard?)).solo c := by
  induction uses generalizing a with
  | nil => rfl
  | cons x rest ih =>
    have hx := solo_afterUses_congr (solo_use_of_heard? a x c) (rest.filterMap c.heard?)
    refine (ih (a.use x)).trans (hx.trans ?_)
    cases h : c.heard? x with
    | none => rw [List.filterMap_cons_none h]; rfl
    | some y => rw [List.filterMap_cons_some h]; rfl

/-- **Channels do not hear each other.**  Let a channel hear the same of two runs from power-on:
the same cycles and writes to the sequencer, the same writes to its own registers, its own bit
whenever the channels are switched, and if it plays samples the same bytes.  Then after the same of
what it hears its state is the same in both, whatever has been written to the registers of the
other channels, and however often the status has been read and the samples have been dropped. -/
theorem channels_are_isolated (c : Channel) (rate rate' : Nat) {left right : List Use}
    (h : left.filterMap c.heard? = right.filterMap c.heard?) :
    ∀ before before', before <+: left → before' <+: right →
      (before.filterMap c.heard?).length = (before'.filterMap c.heard?).length →
      ((ofRate rate).afterUses before).channel c =
        ((ofRate rate').afterUses before').channel c := by
  intro before before' hl hr hn
  have hheard : before.filterMap c.heard? = before'.filterMap c.heard? :=
    (List.prefix_of_prefix_length_le (hl.filterMap _) (h ▸ hr.filterMap _)
      (Nat.le_of_eq hn)).eq_of_length hn
  have hsolo :
      ((ofRate rate).afterUses before).solo c = ((ofRate rate').afterUses before').solo c := by
    rw [solo_afterUses, hheard, solo_afterUses (ofRate rate')]
    exact solo_afterUses_congr (by rw [solo_ofRate, solo_ofRate]) _
  rw [← channel_solo, hsolo, channel_solo]

/-- The first pulse does not hear what is done with the triangle, nor that samples are dropped. -/
theorem channels_are_isolated_pulse :
    let left : List Use :=
      [.write 0x4000 0xBF, .write 0x4015 0x01, .tick, .readStatus, .write 0x4003 0x08,
        .write 0x4017 0x80, .tick]
    let right : List Use :=
      [.write 0x4008 0xFF, .write 0x4000 0xBF, .write 0x4015 0x1D, .tick, .clearSamples,
        .write 0x400B 0x09, .write 0x4003 0x08, .fill 0x55, .write 0x4017 0x80, .tick]
    left.filterMap (Channel.voice .pulse1).heard? = right.filterMap (Channel.voice .pulse1).heard? ∧
      ((ofRate 44100).afterUses left).pulse1 = ((ofRate 48000).afterUses right).pulse1 := by
  intro left right
  have h : left.filterMap (Channel.voice .pulse1).heard? =
      right.filterMap (Channel.voice .pulse1).heard? := by
    decide
  exact ⟨h,
    channels_are_isolated _ 44100 48000 h left right (List.prefix_refl _) (List.prefix_refl _)
      (congrArg List.length h)⟩

end Apu
end Famicom
