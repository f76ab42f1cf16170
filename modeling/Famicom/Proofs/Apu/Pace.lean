/-
# The pace of the shifter

The shifter counts: so many cycles until the bit is used up, so many bits until the byte is.  Taken
together they are a countdown to the end of the byte (`Dmc.untilByte`), which a change of the rate
in between may prolong but not cut short, as long as the rate is one of those that can be chosen.
So the ends of two bytes are 432 cycles apart or more, and the bytes that can be read in a number of
cycles are limited (`Dmc.fetchesWithin_cycle`).  On the other hand a countdown at a rate that stays
comes to its end, and if bytes are left to be read then, one is read
(`Dmc.untilByte_cycle_of_active`).
-/

import Famicom.Proofs.Apu.Beats
import Famicom.Proofs.Apu.Reader

namespace Famicom
namespace Apu

/-- The cycles that a bit takes at the highest rate. -/
def shortestBit : Nat := 54

/-- No rate of the table is shorter than 54 cycles a bit. -/
theorem Period.shortestBit_le_choose (v : UInt8) : shortestBit ≤ choose delta v := by
  have key : ∀ i : Fin 16, shortestBit ≤ delta[i] := by decide
  exact key ⟨v.toNat % 16, Nat.mod_lt _ (by decide)⟩

namespace Dmc

variable {d : Dmc}

/-- The cycles that pass before the one in which the byte in the shifter is used up, if each of the
bits behind the first takes so many. -/
def untilByte (d : Dmc) (bit : Nat) : Nat := d.timer + (d.bitsLeft - 1) * bit

/-- Filling the buffer does not change how far the shifter has to go. -/
theorem untilByte_serve (d : Dmc) (byteAt : UInt16 → UInt8) (bit : Nat) :
    (d.serve byteAt).untilByte bit = d.untilByte bit := by
  rw [serve]
  split
  · rfl
  · rename_i address _
    obtain ⟨_, _, _, h⟩ := d.fill_eq (byteAt address)
    rw [h]
    rfl

/-- Filling the buffer does not change the rate. -/
theorem rate_serve (d : Dmc) (byteAt : UInt16 → UInt8) : (d.serve byteAt).rate = d.rate := by
  rw [serve]
  split
  · rfl
  · rename_i address _
    obtain ⟨_, _, _, h⟩ := d.fill_eq (byteAt address)
    rw [h]

/-- A cycle does not change the rate: only a write does. -/
theorem rate_cycle (d : Dmc) (byteAt : UInt16 → UInt8) : (d.cycle byteAt).rate = d.rate :=
  (rate_serve _ _).trans (rate_clockTimer d)

/-- **How the countdown goes on**: it falls by one; or the next bit begins, at the rate that is set
now; or the byte is used up and the next one begins. -/
theorem untilByte_clockTimer (d : Dmc) (bit : Nat) :
    (d.endsByte = false ∧ (d.clockTimer.untilByte bit + 1 = d.untilByte bit ∨
        d.clockTimer.untilByte bit + bit = d.untilByte bit + (d.rate - 1))) ∨
      (d.endsByte = true ∧ d.untilByte bit = 0 ∧
        d.clockTimer.untilByte bit = d.rate - 1 + 7 * bit) := by
  obtain ⟨he, ht, h⟩ | ⟨he, ht, hb, level, h⟩ | ⟨he, ht, hb, level, h⟩ := d.clockTimer_cases
  · refine .inl ⟨he, .inl ?_⟩
    rw [h, untilByte, untilByte]
    dsimp only
    omega
  · refine .inl ⟨he, .inr ?_⟩
    obtain ⟨k, hk⟩ := Nat.exists_eq_add_of_lt hb
    have hn : d.bitsLeft - 1 = k + 1 := by omega
    rw [h, untilByte, untilByte]
    dsimp only
    rw [ht, hn, Nat.add_sub_cancel, Nat.succ_mul]
    omega
  · refine .inr ⟨he, ?_, ?_⟩
    · rw [untilByte, ht, Nat.sub_eq_zero_of_le hb, Nat.zero_mul]
    · rw [h]
      rfl

/-! ### How many bytes are read in a time

This is a bound from above, for any rates that are set on the way: it counts with the shortest bit
that there is. -/

/-- Whether a byte is read in the next cycle. -/
def fetches (d : Dmc) : Bool := d.clockTimer.fetchAddress?.isSome

/-- **When a byte is read**: the buffer is empty after the shifter's turn, and bytes are left; it is
full afterwards. -/
theorem fetches_cases (d : Dmc) (byteAt : UInt16 → UInt8) :
    (d.fetches = true ∧ d.clockTimer.buffer = none ∧ (d.cycle byteAt).buffer.isNone = false) ∨
      (d.fetches = false ∧ (d.clockTimer.buffer = none → d.bytesLeft = 0) ∧
        d.cycle byteAt = d.clockTimer) := by
  have hl : d.clockTimer.bytesLeft = d.bytesLeft := congrArg Reader.bytesLeft d.reader_clockTimer
  unfold fetches cycle serve
  obtain ⟨ha, hb⟩ | ⟨ha, hb, -⟩ := d.clockTimer.fetchAddress?_cases
  · rw [ha]
    exact .inr ⟨rfl, fun hn => hl ▸ hb hn, rfl⟩
  · rw [ha]
    refine .inl ⟨rfl, hb, ?_⟩
    dsimp only
    rw [buffer_fill]
    rfl

/-- No more bytes than these are read in so many cycles: one if the buffer is empty, and one for
each byte that can be used up. -/
def fetchesWithin (d : Dmc) (n : Nat) : Nat :=
  d.buffer.isNone.toNat + (n + 431 - d.untilByte shortestBit) / 432

/-- In the time of one byte at the fastest rate no more than two can be read. -/
theorem fetchesWithin_432_le (d : Dmc) : d.fetchesWithin 432 ≤ 2 := by
  have := Bool.toNat_le d.buffer.isNone
  unfold fetchesWithin
  omega

/-- **A cycle uses up what can be read in it**, whether a byte is read or not. -/
theorem fetchesWithin_cycle (h : shortestBit ≤ d.rate) (byteAt : UInt16 → UInt8) (n : Nat) :
    d.fetches.toNat + (d.cycle byteAt).fetchesWithin n ≤ d.fetchesWithin (n + 1) := by
  have hu : (d.cycle byteAt).untilByte shortestBit = d.clockTimer.untilByte shortestBit :=
    untilByte_serve _ _ _
  have hb := d.buffer_clockTimer
  have hs : shortestBit = 54 := rfl
  unfold fetchesWithin
  rw [hu]
  have hc : d.fetches.toNat + (d.cycle byteAt).buffer.isNone.toNat ≤
      d.clockTimer.buffer.isNone.toNat := by
    obtain ⟨hf, hn, hk⟩ | ⟨hf, -, hk⟩ := d.fetches_cases byteAt
    · rw [hf, hn, hk]
      exact Nat.le_refl 1
    · rw [hf, hk]
      exact Nat.le_of_eq (Nat.zero_add _)
  obtain ⟨he, hd⟩ | ⟨he, hz, hd⟩ := d.untilByte_clockTimer shortestBit
  · rw [hb, he, if_neg Bool.false_ne_true] at hc
    have hle : (n + 431 - d.clockTimer.untilByte shortestBit) / 432 ≤
        (n + 1 + 431 - d.untilByte shortestBit) / 432 := Nat.div_le_div_right (by omega)
    omega
  · -- the buffer is emptied, and the next byte is a whole one away
    have ht : d.clockTimer.buffer.isNone.toNat ≤ 1 := Bool.toNat_le _
    omega

/-! ### How long some bytes take

This is a bound from below, at the rate that is set.  It carries the promise that a sample is read
to its end if there is time enough. -/

/-- The cycles that a bit takes at the rate that is set. -/
def bitCycles (d : Dmc) : Nat := d.rate - 1 + 1

/-- At the rate that is set the countdown falls by one with every cycle, and takes eight bits from
one byte to the next. -/
theorem untilByte_cycle (d : Dmc) (byteAt : UInt16 → UInt8) :
    (d.endsByte = false ∧ (d.cycle byteAt).untilByte d.bitCycles + 1 = d.untilByte d.bitCycles) ∨
      (d.endsByte = true ∧ d.untilByte d.bitCycles = 0 ∧
        (d.cycle byteAt).untilByte d.bitCycles + 1 = 8 * d.bitCycles) := by
  have hu : (d.cycle byteAt).untilByte d.bitCycles = d.clockTimer.untilByte d.bitCycles :=
    untilByte_serve _ _ _
  have hb : d.bitCycles = d.rate - 1 + 1 := rfl
  rw [hu]
  obtain ⟨he, hd⟩ | ⟨he, hz, hd⟩ := d.untilByte_clockTimer d.bitCycles
  · exact .inl ⟨he, by omega⟩
  · exact .inr ⟨he, hz, by omega⟩

/-- A channel that is active after a cycle was so before: only an order makes it active. -/
theorem active_of_active_cycle {byteAt : UInt16 → UInt8} (h : (d.cycle byteAt).active = true) :
    d.active = true := by
  have hl : d.clockTimer.bytesLeft = d.bytesLeft := congrArg Reader.bytesLeft d.reader_clockTimer
  rw [active, decide_eq_true_eq] at h ⊢
  rw [← hl]
  rw [cycle, serve] at h
  obtain ⟨ha, -⟩ | ⟨-, -, hb⟩ := d.clockTimer.fetchAddress?_cases
  · rwa [ha] at h
  · exact hb

/-- The buffer of an active channel is full after every cycle. -/
theorem isSome_buffer_cycle {byteAt : UInt16 → UInt8} (h : (d.cycle byteAt).active = true) :
    (d.cycle byteAt).buffer.isSome = true := by
  have ha := active_of_active_cycle h
  rw [active, decide_eq_true_eq] at ha
  obtain ⟨-, -, hb⟩ | ⟨-, hn, hc⟩ := d.fetches_cases byteAt
  · simpa using hb
  · rw [hc, Option.isSome_iff_ne_none]
    intro hb
    exact absurd (hn hb) (Nat.ne_of_gt ha)

/-- Whether another byte comes after the one in the shifter: one is in the buffer, or bytes are
left. -/
def goesOn (d : Dmc) : Bool := d.buffer.isSome || d.active

/-- An active channel goes on. -/
theorem goesOn_of_active (h : d.active = true) : d.goesOn = true := by rw [goesOn, h, Bool.or_true]

/-- A channel that goes on after a cycle went on before it. -/
theorem goesOn_of_goesOn_cycle {byteAt : UInt16 → UInt8} (h : (d.cycle byteAt).goesOn = true) :
    d.goesOn = true := by
  have hl : d.clockTimer.bytesLeft = d.bytesLeft := congrArg Reader.bytesLeft d.reader_clockTimer
  rcases Bool.or_eq_true_iff.1 h with hs | ha
  · rw [cycle, serve] at hs
    obtain ⟨ha, -⟩ | ⟨-, -, hn⟩ := d.clockTimer.fetchAddress?_cases
    · rw [ha, buffer_clockTimer] at hs
      split at hs
      · cases hs
      · rw [goesOn, hs, Bool.true_or]
    · rw [hl] at hn
      exact goesOn_of_active (decide_eq_true hn)
  · exact goesOn_of_active (active_of_active_cycle ha)

/-- The cycles in which `k` bytes are used up, beside the one that is being played. -/
def cyclesFor (d : Dmc) (k : Nat) : Nat := d.untilByte d.bitCycles + 8 * d.bitCycles * k

/-- More bytes take more cycles. -/
theorem lt_of_cyclesFor_lt {j k : Nat} (h : d.cyclesFor j < d.cyclesFor k) : j < k :=
  Nat.lt_of_mul_lt_mul_left (Nat.lt_of_add_lt_add_left h)

/-! ### A run of the channel

The account of the bytes (`Follows`) and the count of cycles come together: along a run the channel
has read and taken as many bytes as there was time for. -/

/-- **A sample is being played**: the log is that of a channel which began as `d₀` and has stayed at
its rate.  The buffer of an active channel is full once a cycle has passed.  If another byte is to
come, no more cycles have passed than it takes to use up the bytes before it. -/
structure Plays (d₀ : Dmc) (cycles : Nat) (log : List Event) (d : Dmc) : Prop where
  follows : Follows d₀.reader log d
  rate : d.rate = d₀.rate
  full : cycles ≠ 0 → d.active = true → d.buffer.isSome = true
  pace : d.goesOn = true →
    cycles + d.untilByte d₀.bitCycles ≤ d₀.cyclesFor ((log.filterMap Event.taken?).length + 1)

/-- A channel with an empty buffer begins to play with an empty log. -/
theorem plays_nil (h : d.buffer = none) : Plays d 0 [] d where
  follows := follows_nil h
  rate := rfl
  full hc := absurd rfl hc
  pace _ := Nat.le_add_right_of_le (Nat.le_of_eq (Nat.zero_add _))

/-- A cycle takes a byte from the buffer exactly if it ends one, and there is one to take. -/
theorem length_taken?_cycleEvents (d : Dmc) (byteAt : UInt16 → UInt8) :
    ((d.cycleEvents byteAt).filterMap Event.taken?).length =
      (d.endsByte && d.buffer.isSome).toNat := by
  have hf : (d.clockTimer.fetchEvents byteAt).filterMap Event.taken? = [] := by
    unfold fetchEvents
    cases d.clockTimer.fetchAddress? <;> rfl
  rw [cycleEvents, List.filterMap_append, hf, List.append_nil, takeEvents, taken?_eq]
  cases d.endsByte <;> cases d.buffer <;> rfl

/-- A log has as many bytes read as addresses from which they were. -/
theorem length_fetched?_eq (log : List Event) :
    (log.filterMap Event.fetched?).length = (log.filterMap Event.address?).length := by
  induction log with
  | nil => rfl
  | cons e log ih =>
    cases e with
    | fetch address v => exact congrArg (· + 1) ih
    | take v => exact ih

variable {d₀ : Dmc} {cycles : Nat} {log : List Event}

/-- **A cycle goes on playing.** -/
theorem Plays.cycle (h : Plays d₀ cycles log d) (byteAt : UInt16 → UInt8) :
    Plays d₀ (cycles + 1) (log ++ d.cycleEvents byteAt) (d.cycle byteAt) where
  follows := h.follows.cycle byteAt
  rate := (rate_cycle d byteAt).trans h.rate
  full _ := isSome_buffer_cycle
  pace hg := by
    have hb : d.bitCycles = d₀.bitCycles := by rw [bitCycles, h.rate, bitCycles]
    have hg₀ := goesOn_of_goesOn_cycle hg
    have hp := h.pace hg₀
    have hu := d.untilByte_cycle byteAt
    rw [hb] at hu
    rw [List.filterMap_append, List.length_append, length_taken?_cycleEvents]
    simp only [cyclesFor, Nat.mul_add, Nat.mul_one] at hp ⊢
    obtain ⟨he, hu⟩ | ⟨he, hz, hu⟩ := hu
    · rw [he, Bool.false_and, Bool.toNat_false]
      omega
    · rw [he, Bool.true_and]
      cases hs : d.buffer.isSome with
      | true =>
        rw [Bool.toNat_true, Nat.mul_one]
        omega
      | false =>
        -- the buffer of an active channel is empty, so this is the first cycle
        have ha : d.active = true := by rwa [goesOn, hs, Bool.false_or] at hg₀
        have hc : cycles = 0 := by
          by_contra hc
          rw [h.full hc ha] at hs
          cases hs
        rw [hc, Bool.toNat_false]
        omega

/-- Every byte that has been read has been taken, or is in the buffer. -/
theorem Plays.length_fetched (h : Plays d₀ cycles log d) :
    (log.filterMap Event.address?).length =
      (log.filterMap Event.taken?).length + d.buffer.isSome.toNat := by
  rw [← length_fetched?_eq, h.follows.bytes, List.length_append]
  cases d.buffer <;> rfl

/-- A channel that is active reads on. -/
theorem Plays.lt_fetched (h : Plays d₀ cycles log d) (ha : d.active = true) {k : Nat}
    (hk : d₀.cyclesFor k < cycles) : k < (log.filterMap Event.address?).length := by
  have hp := h.pace (goesOn_of_active ha)
  rw [h.length_fetched, h.full (Nat.ne_of_gt (Nat.zero_lt_of_lt hk)) ha]
  exact lt_of_cyclesFor_lt (Nat.lt_of_lt_of_le hk (Nat.le_of_add_right_le hp))

/-- A byte that has been read is taken by the shifter. -/
theorem Plays.lt_taken (h : Plays d₀ cycles log d) {k : Nat}
    (hf : k < (log.filterMap Event.address?).length) (hk : d₀.cyclesFor (k + 1) < cycles) :
    k < (log.filterMap Event.taken?).length := by
  rw [h.length_fetched] at hf
  cases hb : d.buffer.isSome with
  | false =>
    rwa [hb] at hf
  | true =>
    have hp := h.pace (by rw [goesOn, hb, Bool.true_or])
    exact Nat.lt_of_succ_lt_succ
      (lt_of_cyclesFor_lt (Nat.lt_of_lt_of_le hk (Nat.le_of_add_right_le hp)))

/-- **A sample that is played once**: the bytes are read one after the other, and the channel is
active until all have been read and requests an interrupt when they have. -/
theorem Plays.of_not_looping (h : Plays d₀ cycles log d) (hs : d₀.reader.AtStart)
    (hl : d₀.looping = false) :
    let fetched := log.filterMap Event.address?
    (∀ i address, fetched[i]? = some address → address = nextAddress^[i] d₀.sampleAddress) ∧
      fetched.length ≤ d₀.sampleLength ∧ d.active = decide (fetched.length < d₀.sampleLength) ∧
      d.irq = (d₀.irqEnabled && fetched.length == d₀.sampleLength) := by
  intro fetched
  -- a byte more than the sample has would have been read with none left
  have hle : fetched.length ≤ d₀.sampleLength := by
    by_contra hn
    have hi : d₀.sampleLength < fetched.length := Nat.lt_of_not_le hn
    obtain ⟨-, hb⟩ := h.follows.addresses _ _ (List.getElem?_eq_getElem hi)
    rw [hs.iterate_next hl (i := d₀.sampleLength) (Nat.le_refl _)] at hb
    exact absurd hb (by simp [reader])
  have hr := h.follows.reader
  rw [hs.iterate_next hl hle] at hr
  have hb : d.bytesLeft = d₀.sampleLength - fetched.length := congrArg Reader.bytesLeft hr
  refine ⟨?_, hle, ?_, congrArg Reader.irq hr⟩
  · intro i address hi
    have hlt : i < fetched.length := (List.getElem?_eq_some_iff.1 hi).1
    rw [(h.follows.addresses i address hi).1,
      hs.iterate_next hl (Nat.le_of_lt (Nat.lt_of_lt_of_le hlt hle))]
    rfl
  · rw [active, hb]
    exact decide_eq_decide.2 Nat.sub_pos_iff_lt

/-- **A sample that is played over and over**: the bytes are read in turn, and the channel stays
active and requests no interrupt. -/
theorem Plays.of_looping (h : Plays d₀ cycles log d) (hs : d₀.reader.AtStart)
    (hl : d₀.looping = true) :
    (∀ i address, (log.filterMap Event.address?)[i]? = some address →
        address = nextAddress^[i % d₀.sampleLength] d₀.sampleAddress) ∧
      d.active = true ∧ d.irq = false := by
  have hr := h.follows.reader
  rw [hs.iterate_next_of_looping hl] at hr
  have hb : d.bytesLeft = d₀.sampleLength - _ := congrArg Reader.bytesLeft hr
  refine ⟨?_, ?_, congrArg Reader.irq hr⟩
  · intro i address hi
    rw [(h.follows.addresses i address hi).1, hs.iterate_next_of_looping hl]
    rfl
  · rw [active, hb]
    exact decide_eq_true (Nat.sub_pos_of_lt (Nat.mod_lt _ hs.length_pos))

/-! ### Writes to the channel -/

/-- The addresses by which the channel is reached. -/
def registers : List UInt16 := [0x4010, 0x4011, 0x4012, 0x4013, 0x4015]

/-- Write a register of the channel, or the switch of all channels. -/
def write (d : Dmc) (address : UInt16) (v : UInt8) : Dmc :=
  match address with
  | 0x4010 => d.writeControl v
  | 0x4011 => d.writeLevel v
  | 0x4012 => d.writeAddress v
  | 0x4013 => d.writeLength v
  | 0x4015 => (d.setEnabled (v &&& 0x10 != 0)).clearIrq
  | _ => d

/-- A write to another channel's registers leaves the sample player. -/
theorem write_of_not_mem {address : UInt16} (h : address ∉ registers) (d : Dmc) (v : UInt8) :
    d.write address v = d := by
  simp only [registers, List.mem_cons, List.not_mem_nil, or_false, not_or] at h
  unfold write
  split <;> simp_all

/-- **A write does not touch the countdown**; it may set another rate. -/
theorem write_cases (d : Dmc) (address : UInt16) (v : UInt8) :
    (d.write address v).timer = d.timer ∧ (d.write address v).bitsLeft = d.bitsLeft ∧
      (d.write address v).buffer = d.buffer ∧
      ((d.write address v).rate = d.rate ∨ shortestBit ≤ (d.write address v).rate) := by
  unfold write
  split
  · exact ⟨rfl, rfl, rfl, .inr (Period.shortestBit_le_choose v)⟩
  · exact ⟨rfl, rfl, rfl, .inl rfl⟩
  · exact ⟨rfl, rfl, rfl, .inl rfl⟩
  · exact ⟨rfl, rfl, rfl, .inl rfl⟩
  · unfold setEnabled
    split
    · exact ⟨rfl, rfl, rfl, .inl rfl⟩
    · split <;> exact ⟨rfl, rfl, rfl, .inl rfl⟩
  · exact ⟨rfl, rfl, rfl, .inl rfl⟩

/-- A write leaves the shifter where it is, and the buffer as full as it was. -/
theorem fetchesWithin_write (d : Dmc) (address : UInt16) (v : UInt8) (n : Nat) :
    (d.write address v).fetchesWithin n = d.fetchesWithin n := by
  obtain ⟨ht, hl, hb, -⟩ := d.write_cases address v
  rw [fetchesWithin, fetchesWithin, untilByte, untilByte, ht, hl, hb]

/-- A write may set another rate of the table, no faster than the fastest. -/
theorem shortestBit_le_rate_write (h : shortestBit ≤ d.rate) (address : UInt16) (v : UInt8) :
    shortestBit ≤ (d.write address v).rate := by
  obtain ⟨-, -, -, hr | hr⟩ := d.write_cases address v
  · rwa [hr]
  · exact hr

end Dmc

/-- The sample player does not hear the beats. -/
theorem dmc_hear (a : Apu) (beat : Beat) : (a.hear beat).dmc = a.dmc := by cases beat <;> rfl

/-- What a write does to the channel. -/
theorem dmc_write (a : Apu) (address : UInt16) (v : UInt8) :
    (a.write address v).dmc = a.dmc.write address v := by
  unfold write
  split
  case h_20 => exact dmc_hear _ _
  case h_21 =>
    refine (Dmc.write_of_not_mem ?_ _ _).symm
    simp only [Dmc.registers, List.mem_cons, List.not_mem_nil, or_false, not_or]
    refine ⟨?_, ?_, ?_, ?_, ?_⟩ <;> assumption
  all_goals rfl

/-- A cycle of the sound unit is one of the channel. -/
theorem dmc_tick (a : Apu) : a.tick.dmc = a.dmc.clockTimer := by
  have ht : a.clockTimers.dmc = a.dmc.clockTimer := by rw [clockTimers_eq]
  exact (dmc_hear _ _).trans ht

end Apu
end Famicom
