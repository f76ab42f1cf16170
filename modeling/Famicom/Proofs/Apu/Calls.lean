/-
# The channels one by one

Taken by itself a channel is a machine with four registers, a switch and three clocks, one for its
timer and two for the frames (`Apu.Channel.Call`); the delta modulation channel is given bytes
besides.  The sound unit does nothing else with its channels: whatever is done with it is to each
of them a run of such calls (`Apu.channel_use`).  So what holds of a channel after any calls holds
of it in every sound unit that can be come to (`Apu.Reachable.channel`).
-/

import Famicom.Proofs.Apu.Channels
import Famicom.Proofs.Apu.Pointers

namespace Famicom
namespace Apu

/-- What can be done with a channel.  Not all channels have all of it: a voice is given no bytes,
and the delta modulation channel does not hear the frames. -/
inductive Channel.Call where
  /-- Write one of the four registers. -/
  | write (register : Fin 4) (v : UInt8)
  /-- Switch the channel on or off. -/
  | setEnabled (enabled : Bool)
  /-- Let a cycle of the timer pass. -/
  | clockTimer
  /-- Let a quarter frame pass. -/
  | clockQuarter
  /-- Let a half frame pass. -/
  | clockHalf
  /-- Give the channel a byte. -/
  | fill (v : UInt8)
  /-- Take its request for an interrupt back. -/
  | clearIrq
deriving DecidableEq, Repr

/-- Whether one of the registers is written. -/
def Channel.Call.isWrite : Channel.Call → Bool
  | write _ _ => true
  | _ => false

/-- A pulse channel after a call. -/
def Pulse.call (p : Pulse) : Channel.Call → Pulse
  | .write 0 v => p.writeControl v
  | .write 1 v => p.writeSweep v
  | .write 2 v => p.writeTimerLow v
  | .write 3 v => p.writeTimerHigh v
  | .setEnabled enabled => p.setEnabled enabled
  | .clockTimer => p.clockTimer
  | .clockQuarter => p.clockQuarter
  | .clockHalf => p.clockHalf
  | .fill _ | .clearIrq => p

/-- The triangle channel after a call.  It has no second register. -/
def Triangle.call (t : Triangle) : Channel.Call → Triangle
  | .write 0 v => t.writeControl v
  | .write 1 _ => t
  | .write 2 v => t.writeTimerLow v
  | .write 3 v => t.writeTimerHigh v
  | .setEnabled enabled => t.setEnabled enabled
  | .clockTimer => t.clockTimer
  | .clockQuarter => t.clockQuarter
  | .clockHalf => t.clockHalf
  | .fill _ | .clearIrq => t

/-- The noise channel after a call.  It has no second register. -/
def Noise.call (n : Noise) : Channel.Call → Noise
  | .write 0 v => n.writeControl v
  | .write 1 _ => n
  | .write 2 v => n.writePeriod v
  | .write 3 v => n.writeLength v
  | .setEnabled enabled => n.setEnabled enabled
  | .clockTimer => n.clockTimer
  | .clockQuarter => n.clockQuarter
  | .clockHalf => n.clockHalf
  | .fill _ | .clearIrq => n

/-- The delta modulation channel after a call. -/
def Dmc.call (d : Dmc) : Channel.Call → Dmc
  | .write 0 v => d.writeControl v
  | .write 1 v => d.writeLevel v
  | .write 2 v => d.writeAddress v
  | .write 3 v => d.writeLength v
  | .setEnabled enabled => d.setEnabled enabled
  | .clockTimer => d.clockTimer
  | .clockQuarter | .clockHalf => d
  | .fill v => d.fill v
  | .clearIrq => d.clearIrq

namespace Channel

/-- A channel after a call. -/
def call : (c : Channel) → c.State → Call → c.State
  | .voice .pulse1 | .voice .pulse2 => Pulse.call
  | .voice .triangle => Triangle.call
  | .voice .noise => Noise.call
  | .dmc => Dmc.call

/-- A channel at power-on. -/
def initial : (c : Channel) → c.State
  | .voice .pulse1 => ({ number := .one } : Pulse)
  | .voice .pulse2 => ({ number := .two } : Pulse)
  | .voice .triangle => ({} : Triangle)
  | .voice .noise => ({} : Noise)
  | .dmc => ({} : Dmc)

/-- Whether the timer of a channel runs in a cycle of the sound unit: the pulses and the noise run
in every second one. -/
def runsIn (c : Channel) (cycle : Nat) : Bool :=
  c = .voice .triangle || c = .dmc || cycle % 2 = 0

/-- The pulses and the noise run in every other cycle. -/
theorem runsIn_iff {c : Channel} (ht : c ≠ .voice .triangle) (hd : c ≠ .dmc) {cycle : Nat} :
    c.runsIn cycle = true ↔ cycle % 2 = 0 := by
  simp [runsIn, ht, hd]

end Channel

/-- What a beat is to a channel. -/
def Beat.calls : Beat → List Channel.Call
  | none => []
  | quarter => [.clockQuarter]
  | half => [.clockQuarter, .clockHalf]

/-- What is done with a channel when something is done with the sound unit, before the beat that it
may hear. -/
def ownCalls (a : Apu) (c : Channel) : Use → List Channel.Call
  | .tick => if c.runsIn (a.cycles + 1) then [.clockTimer] else []
  | .write address v =>
    if address = 0x4015 then [.setEnabled (v &&& c.bit != 0), .clearIrq]
    else if address ∈ c.registers then [.write (Fin.ofNat 4 address.toNat) v]
    else []
  | .fill v => [.fill v]
  | .readStatus | .clearSamples => []

/-- What is done with a channel when something is done with the sound unit. -/
def callsOf (a : Apu) (c : Channel) (x : Use) : List Channel.Call :=
  a.ownCalls c x ++ (a.beatOf x).calls

variable {a : Apu}

/-- A beat is a list of calls to each channel, the same for all. -/
theorem channel_hear (a : Apu) (beat : Beat) (c : Channel) :
    (a.hear beat).channel c = beat.calls.foldl c.call (a.channel c) := by
  rcases c with (_ | _ | _ | _) | _ <;> cases beat <;> rfl

/-- A cycle of the timers is a call to the channels whose turn it is. -/
theorem channel_clockTimers (a : Apu) (c : Channel) :
    a.clockTimers.channel c = (a.ownCalls c .tick).foldl c.call (a.channel c) := by
  rw [clockTimers_eq, ownCalls]
  rcases c with (_ | _ | _ | _) | _
  case voice.triangle | dmc => rfl
  all_goals
    by_cases h : (a.cycles + 1) % 2 = 0
    · rw [if_pos ((Channel.runsIn_iff (by decide) (by decide)).2 h)]
      exact if_pos h
    · rw [if_neg (mt (Channel.runsIn_iff (by decide) (by decide)).1 h)]
      exact if_neg h

/-- A write is the calls that it makes to a channel itself, then those of its beat. -/
theorem channel_write (a : Apu) (address : UInt16) (v : UInt8) (c : Channel) :
    (a.write address v).channel c =
      (a.callsOf c (.write address v)).foldl c.call (a.channel c) := by
  rw [callsOf, ownCalls, beatOf]
  -- the sequencer's register has no channel behind it: the channels hear its beat
  by_cases hf : address = 0x4017
  · subst hf
    have hn : (0x4017 : UInt16) ∉ c.registers := by rcases c with (_ | _ | _ | _) | _ <;> decide
    rw [if_neg (by decide), if_neg hn, if_pos rfl]
    exact channel_hear { a with sequencer := (a.sequencer.write v).2 } _ c
  rw [if_neg hf]
  -- the register of the switches is a call to every channel
  by_cases hs : address = 0x4015
  · subst hs
    rw [if_pos rfl]
    rcases c with (_ | _ | _ | _) | _ <;> rfl
  rw [if_neg hs]
  by_cases hm : address ∈ c.registers
  · rw [if_pos hm]
    have own : ∀ r ∈ c.registers,
        (a.write r v).channel c = c.call (a.channel c) (.write (Fin.ofNat 4 r.toNat) v) := by
      rcases c with (_ | _ | _ | _) | _ <;>
        simp only [Channel.registers, Voice.registers, List.forall_mem_cons]
      case voice.triangle | voice.noise => exact ⟨rfl, rfl, rfl, nofun⟩
      all_goals exact ⟨rfl, rfl, rfl, rfl, nofun⟩
    exact own address hm
  · -- a register of another channel is not seen by this one alone
    rw [if_neg hm, ← channel_solo, solo_write_of_not_mem hs hf hm, channel_solo]
    rfl

/-- **What is done with the sound unit is to each channel a run of calls.** -/
theorem channel_use (a : Apu) (x : Use) (c : Channel) :
    (a.use x).channel c = (a.callsOf c x).foldl c.call (a.channel c) := by
  cases x with
  | tick =>
    have ht : a.tick.channel c =
        ({ a.clockTimers with sequencer := a.sequencer.tick.2 }.hear
          a.sequencer.tick.1).channel c := by
      rw [tick_eq_hear]
      rcases c with (_ | _ | _ | _) | _ <;> rfl
    rw [callsOf, List.foldl_append, ← channel_clockTimers]
    exact ht.trans (channel_hear ..)
  | write address v => exact channel_write a address v c
  | fill v => rcases c with (_ | _ | _ | _) | _ <;> rfl
  | readStatus | clearSamples => rcases c with (_ | _ | _ | _) | _ <;> rfl

/-- **In every sound unit that can be come to** each channel is one that calls lead to from
power-on. -/
theorem Reachable.channel (h : a.Reachable) (c : Channel) :
    ∃ calls : List Channel.Call, a.channel c = calls.foldl c.call c.initial := by
  induction h with
  | ofRate rate => exact ⟨[], by rcases c with (_ | _ | _ | _) | _ <;> rfl⟩
  | @use a x _ ih =>
    obtain ⟨calls, hc⟩ := ih
    exact ⟨calls ++ a.callsOf c x, by rw [List.foldl_append, ← hc, channel_use]⟩

end Apu
end Famicom
