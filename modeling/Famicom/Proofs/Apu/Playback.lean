/-
# How a sample sounds

Whenever the timer expires the shifter uses up a bit.  The bit goes out and the level follows it,
or nothing goes out because the channel is silent: this is the slot of the expiration
(`Apu.Dmc.slot`).  Eight slots are a turn.  At its end the shifter finds a byte in the buffer,
whose bits fill the turn that follows, or none, and then that turn is empty (`Apu.Dmc.turn`).

So the slots of a run are the rest of the turn that was under way and the turns for what the
shifter has found, one after the other, as far as the timer has come.  What it has found are the
bytes that the channel has been given, but for the one that waits in the buffer.  Both accounts add
up along a run (`Apu.Dmc.Account`).
-/

import Famicom.Proofs.Apu.Calls
import Famicom.Proofs.Bits
import Mathlib.Data.List.ReduceOption

namespace Famicom
namespace Apu

/-- The byte that a channel is given. -/
def Channel.Call.byte? : Channel.Call → Option UInt8
  | fill v => some v
  | _ => none

/-- Whether the register is written that sets the level of the delta modulation channel. -/
def Channel.Call.setsLevel : Channel.Call → Bool
  | write 1 _ => true
  | _ => false

namespace Dmc

/-- The lowest bits of a byte, the lowest in front. -/
def lowBits (n : Nat) (v : UInt8) : List Bool := (List.range n).map v.toNat.testBit

/-- So many bits of a byte are so many. -/
theorem length_lowBits (n : Nat) (v : UInt8) : (lowBits n v).length = n := by simp [lowBits]

/-- The lowest bit goes out first, and the others are those of the byte shifted. -/
theorem lowBits_succ (n : Nat) (v : UInt8) :
    lowBits (n + 1) v = (v &&& 0x01 != 0) :: lowBits n (v >>> 1) := by
  have hs : (v >>> 1).toNat = v.toNat / 2 := by
    rw [UInt8.toNat_shiftRight, Nat.shiftRight_eq_div_pow]
    rfl
  rw [lowBits, lowBits, List.range_succ_eq_map, List.map_cons, List.map_map,
    and_mask_ne_zero v 0x01 (i := 0) rfl, hs]
  refine congrArg _ (List.map_congr_left fun i _ => ?_)
  exact Nat.testBit_succ v.toNat i

/-- The lowest bit is the first to go out. -/
example : lowBits 4 0x0D = [true, false, true, true] := by decide

/-! ### Slots

Eight expirations of the timer make a slot, and in each the shifter has either taken a byte or
found the buffer empty.  A run of the channel is looked at as a list of what its expirations do,
the rest of the slot under way in front. -/

/-- What goes out when the timer expires. -/
def slot (d : Dmc) : Option Bool := if d.silent then none else some (d.shift &&& 0x01 != 0)

/-- The slots of the turn that the shifter goes through when it has found a byte, or none. -/
def turn : Option UInt8 → List (Option Bool)
  | none => List.replicate 8 none
  | some v => (lowBits 8 v).map some

/-- The slots that are left of the turn under way. -/
def restOfTurn (d : Dmc) : List (Option Bool) :=
  if d.silent then List.replicate d.bitsLeft none else (lowBits d.bitsLeft d.shift).map some

/-- The slot of a call, if the timer expires. -/
def slotOf (d : Dmc) (x : Channel.Call) : List (Option Bool) :=
  if x == .clockTimer && d.timer == 0 then [d.slot] else []

/-- What the shifter finds in the buffer, if a turn ends. -/
def findOf (d : Dmc) (x : Channel.Call) : List (Option UInt8) :=
  if x == .clockTimer && d.endsByte then [d.buffer] else []

/-- The slots of a run, one for each time the timer expires. -/
def slots (d : Dmc) : List Channel.Call → List (Option Bool)
  | [] => []
  | x :: rest => d.slotOf x ++ (d.call x).slots rest

/-- What the shifter finds in the buffer at the ends of the turns of a run. -/
def finds (d : Dmc) : List Channel.Call → List (Option UInt8)
  | [] => []
  | x :: rest => d.findOf x ++ (d.call x).finds rest

/-- Whether the buffer is empty whenever the channel is given a byte. -/
def takesAll (d : Dmc) : List Channel.Call → Bool
  | [] => true
  | x :: rest => (x.byte?.isNone || d.buffer.isNone) && (d.call x).takesAll rest

/-- A turn has eight slots, whether or not a byte was found. -/
theorem length_turn (find : Option UInt8) : (turn find).length = 8 := by
  cases find <;> simp [turn, length_lowBits]

/-- So turns have eight times as many slots. -/
theorem length_flatMap_turn (finds : List (Option UInt8)) :
    (finds.flatMap turn).length = 8 * finds.length := by
  induction finds with
  | nil => rfl
  | cons find rest ih =>
    rw [List.flatMap_cons, List.length_append, length_turn, ih, List.length_cons, Nat.mul_succ,
      Nat.add_comm]

/-- Turn for turn the bits of the bytes that have been found go out. -/
theorem reduceOption_flatMap_turn (finds : List (Option UInt8)) :
    (finds.flatMap turn).reduceOption = finds.reduceOption.flatMap (lowBits 8) := by
  induction finds with
  | nil => rfl
  | cons find rest ih =>
    rw [List.flatMap_cons, List.reduceOption_append, ih]
    cases find with
    | none => rfl
    | some v =>
      rw [List.reduceOption_cons_of_some, List.flatMap_cons]
      simp [turn, List.reduceOption]

/-- What is left of a turn are the slots that the counter of bits says. -/
theorem length_restOfTurn (d : Dmc) : d.restOfTurn.length = d.bitsLeft := by
  unfold restOfTurn
  split_ifs <;> simp [length_lowBits]

/-! ### What moves the level

Only a write to the level and an expiration in a slot with a byte do, and an expiration goes up or
down by two within seven bits. -/

/-- The counters of a channel are in their ranges. -/
structure InRange (d : Dmc) : Prop where
  bitsLeft_pos : 0 < d.bitsLeft
  bitsLeft_le : d.bitsLeft ≤ 8
  level_le : d.level ≤ 127

variable {d d' d'' : Dmc} {x : Channel.Call}

/-- At first eight bits are to come and the level is zero. -/
theorem inRange_initial : ({} : Dmc).InRange := ⟨by decide, by decide, by decide⟩

/-- **What a call does to the shifter**: nothing, unless it is a cycle of the timer, a byte or a
level. -/
theorem call_cases (d : Dmc) (x : Channel.Call) :
    x = .clockTimer ∨ (∃ v, x = .fill v) ∨ (∃ v, x = .write 1 v ∧ d.call x = d.writeLevel v) ∨
    (d.slotOf x = [] ∧ d.findOf x = [] ∧ x.byte? = none ∧
      ∃ irqEnabled looping rate sampleAddress sampleLength address bytesLeft irq, d.call x =
        { d with
          irqEnabled, looping, rate, sampleAddress, sampleLength, address, bytesLeft, irq }) := by
  cases x with
  | write register v =>
    match register with
    | 1 => exact .inr (.inr (.inl ⟨v, rfl, rfl⟩))
    | 0 | 2 | 3 => exact .inr (.inr (.inr ⟨rfl, rfl, rfl, _, _, _, _, _, _, _, _, rfl⟩))
  | setEnabled enabled =>
    refine .inr (.inr (.inr ⟨rfl, rfl, rfl, ?_⟩))
    show ∃ irqEnabled looping rate sampleAddress sampleLength address bytesLeft irq,
      d.setEnabled enabled = _
    unfold setEnabled
    split_ifs <;> exact ⟨_, _, _, _, _, _, _, _, rfl⟩
  | clockTimer => exact .inl rfl
  | fill v => exact .inr (.inl ⟨v, rfl⟩)
  | clockQuarter | clockHalf | clearIrq =>
    exact .inr (.inr (.inr ⟨rfl, rfl, rfl, _, _, _, _, _, _, _, _, rfl⟩))

/-- In a cycle of the timer the level follows the slot. -/
theorem level_clockTimer (d : Dmc) :
    d.clockTimer.level = (d.slotOf .clockTimer).reduceOption.foldl nextLevel d.level := by
  unfold clockTimer slotOf
  by_cases ht : 0 < d.timer
  · rw [if_pos ht]
    simp [Nat.ne_of_gt ht]
  · have h₀ : d.timer = 0 := Nat.eq_zero_of_not_pos ht
    have hl : (shiftOut { d with timer := d.rate - 1 }).level =
        if d.silent then d.level else nextLevel d.level (d.shift &&& 0x01 != 0) := by
      unfold shiftOut
      dsimp only
      split
      · rfl
      · cases d.buffer <;> rfl
    rw [if_neg ht, hl, h₀, slot]
    cases d.silent <;> rfl

/-- Unless it is written the level changes by the slots alone. -/
theorem level_call (h : x.setsLevel = false) (d : Dmc) :
    (d.call x).level = (d.slotOf x).reduceOption.foldl nextLevel d.level := by
  obtain rfl | ⟨v, rfl⟩ | ⟨v, rfl, -⟩ | ⟨hs, -, -, _, _, _, _, _, _, _, _, hc⟩ := d.call_cases x
  · exact d.level_clockTimer
  · obtain ⟨_, _, _, hf⟩ := d.fill_eq v
    show (d.fill v).level = d.level
    rw [hf]
  · cases h
  · rw [hc, hs]
    rfl

/-- **While no byte is loaded** the level stays, unless it is written. -/
theorem level_call_of_silent (hd : d.silent = true) (hx : x.setsLevel = false) :
    (d.call x).level = d.level := by
  rw [level_call hx, slotOf, slot, if_pos hd]
  split_ifs <;> rfl

/-- No bits take the level above 127. -/
theorem foldl_nextLevel_le {level : Nat} (h : level ≤ 127) (bits : List Bool) :
    bits.foldl nextLevel level ≤ 127 :=
  List.foldlRecOn (motive := (· ≤ 127)) bits nextLevel h fun _ h bit _ => nextLevel_le h bit

/-- A step that would lead out of the seven bits is left out. -/
example : [true, true, false].foldl nextLevel 124 = 124 ∧ [false].foldl nextLevel 1 = 1 := by
  decide

/-- Each call keeps the counters in their ranges. -/
theorem InRange.call (h : d.InRange) (x : Channel.Call) : (d.call x).InRange := by
  obtain rfl | ⟨v, rfl⟩ | ⟨v, -, hc⟩ | ⟨-, -, -, _, _, _, _, _, _, _, _, hc⟩ := d.call_cases x
  · have hl : d.clockTimer.level ≤ 127 := d.level_clockTimer ▸ foldl_nextLevel_le h.level_le _
    show d.clockTimer.InRange
    obtain ⟨-, -, hc⟩ | ⟨-, -, hb, level, hc⟩ | ⟨-, -, -, level, hc⟩ := d.clockTimer_cases <;>
      rw [hc] at hl ⊢
    · exact ⟨h.bitsLeft_pos, h.bitsLeft_le, hl⟩
    · exact ⟨Nat.sub_pos_of_lt hb, Nat.le_trans (Nat.sub_le ..) h.bitsLeft_le, hl⟩
    · exact ⟨Nat.succ_pos 7, Nat.le_refl 8, hl⟩
  · obtain ⟨_, _, _, hf⟩ := d.fill_eq v
    show (d.fill v).InRange
    rw [hf]
    exact ⟨h.bitsLeft_pos, h.bitsLeft_le, h.level_le⟩
  · rw [hc]
    exact ⟨h.bitsLeft_pos, h.bitsLeft_le, Nat.le_of_lt_succ (Nat.mod_lt _ (by decide))⟩
  · rw [hc]
    exact ⟨h.bitsLeft_pos, h.bitsLeft_le, h.level_le⟩

/-! ### The account of a run -/

/-- **What has become of the bytes** that a channel was given on the way from one state to another:
the slots and the rest of the turn under way are the rest of the first turn and the turns for what
the shifter has found; each byte that was in the buffer or has been given has been found or is in
the buffer; and the level has followed the slots. -/
structure Account (d d' : Dmc) (slots : List (Option Bool)) (finds : List (Option UInt8))
    (given : List UInt8) : Prop where
  turns : slots ++ d'.restOfTurn = d.restOfTurn ++ finds.flatMap turn
  bytes : finds.reduceOption ++ d'.buffer.toList = d.buffer.toList ++ given
  level : d'.level = slots.reduceOption.foldl nextLevel d.level

/-- Where nothing has been called, nothing has become of any byte. -/
theorem account_refl (d : Dmc) : Account d d [] [] [] where
  turns := (List.append_nil _).symm
  bytes := (List.append_nil _).symm
  level := rfl

/-- Accounts of two stretches make one: what was left of a turn in between is the first turn of the
second. -/
theorem Account.trans {slots slots' : List (Option Bool)} {finds finds' : List (Option UInt8)}
    {given given' : List UInt8} (h : Account d d' slots finds given)
    (h' : Account d' d'' slots' finds' given') :
    Account d d'' (slots ++ slots') (finds ++ finds') (given ++ given') where
  turns := by
    rw [List.append_assoc, h'.turns, ← List.append_assoc, h.turns, List.flatMap_append,
      List.append_assoc]
  bytes := by
    rw [List.reduceOption_append, List.append_assoc, h'.bytes, ← List.append_assoc, h.bytes,
      List.append_assoc]
  level := by rw [List.reduceOption_append, List.foldl_append, ← h.level, h'.level]

/-- The first slot of the turn under way is the one that comes next. -/
theorem restOfTurn_eq_cons (h : d.InRange) : d.restOfTurn = d.slot ::
    if d.silent then List.replicate (d.bitsLeft - 1) none
    else (lowBits (d.bitsLeft - 1) (d.shift >>> 1)).map some := by
  obtain ⟨n, hn⟩ := Nat.exists_eq_add_one_of_ne_zero (Nat.ne_of_gt h.bitsLeft_pos)
  rw [restOfTurn, slot, hn]
  cases d.silent with
  | true => rfl
  | false => exact congrArg (List.map some) (lowBits_succ n d.shift)

/-- **A cycle of the timer**: it passes, a slot of the turn does, or the last one does and the next
turn begins. -/
theorem account_clockTimer (h : d.InRange) :
    Account d d.clockTimer (d.slotOf .clockTimer) (d.findOf .clockTimer) [] := by
  have hl := d.level_clockTimer
  obtain ⟨he, ht, hc⟩ | ⟨he, ht, hb, level, hc⟩ | ⟨he, ht, hb, level, hc⟩ := d.clockTimer_cases
  · have hslot : d.slotOf .clockTimer = [] := by simp [slotOf, Nat.ne_of_gt ht]
    have hfind : d.findOf .clockTimer = [] := by simp [findOf, he]
    rw [hslot] at hl ⊢
    rw [hfind]
    refine ⟨?_, ?_, hl⟩ <;> rw [hc] <;> exact (List.append_nil _).symm
  · have hslot : d.slotOf .clockTimer = [d.slot] := by simp [slotOf, ht]
    have hfind : d.findOf .clockTimer = [] := by simp [findOf, he]
    rw [hfind]
    refine ⟨?_, ?_, hl⟩
    · rw [hslot, restOfTurn_eq_cons h, hc, restOfTurn]
      exact (List.append_nil _).symm
    · rw [hc]
      exact (List.append_nil _).symm
  · -- the last slot of the turn: the next one is for what is in the buffer
    have hslot : d.slotOf .clockTimer = [d.slot] := by simp [slotOf, ht]
    have hfind : d.findOf .clockTimer = [d.buffer] := by simp [findOf, he]
    have hrest : d.restOfTurn = [d.slot] := by
      rw [restOfTurn_eq_cons h, Nat.sub_eq_zero_of_le hb]
      cases d.silent <;> rfl
    rw [hfind]
    refine ⟨?_, ?_, hl⟩
    · rw [hslot, hrest, hc, restOfTurn]
      cases d.buffer <;> simp [turn]
    · rw [hc]
      cases d.buffer <;> rfl

/-- **One call**, if it sets no level and gives a byte only to an empty buffer. -/
theorem account_call (h : d.InRange) (hl : x.setsLevel = false)
    (hb : (x.byte?.isNone || d.buffer.isNone) = true) :
    Account d (d.call x) (d.slotOf x) (d.findOf x) x.byte?.toList := by
  have hlevel := level_call hl d
  obtain rfl | ⟨v, rfl⟩ | ⟨v, rfl, -⟩ | ⟨hs, hf, hn, _, _, _, _, _, _, _, _, hc⟩ := d.call_cases x
  · exact account_clockTimer h
  · have he : d.buffer = none := by simpa [Channel.Call.byte?] using hb
    obtain ⟨_, _, _, hv⟩ := d.fill_eq v
    have hc : d.call (.fill v) = _ := hv
    refine ⟨?_, ?_, hlevel⟩ <;> rw [hc]
    · exact (List.append_nil _).symm
    · rw [he]
      rfl
  · cases hl
  · rw [hs] at hlevel ⊢
    rw [hf, hn]
    refine ⟨?_, ?_, hlevel⟩ <;> rw [hc] <;> exact (List.append_nil _).symm

/-- **A run adds up**, if it sets no level and gives bytes only to an empty buffer. -/
theorem account_run (h : d.InRange) {run : List Channel.Call} (hl : ∀ x ∈ run, x.setsLevel = false)
    (hb : d.takesAll run = true) :
    Account d (run.foldl call d) (d.slots run) (d.finds run)
      (run.filterMap Channel.Call.byte?) := by
  induction run generalizing d with
  | nil => exact account_refl d
  | cons x rest ih =>
    rw [takesAll, Bool.and_eq_true] at hb
    have hx := account_call h (hl x (List.mem_cons_self ..)) hb.1
    have hrest := ih (h.call x) (fun y hy => hl y (List.mem_cons_of_mem _ hy)) hb.2
    have hbytes : (x :: rest).filterMap Channel.Call.byte? =
        x.byte?.toList ++ rest.filterMap Channel.Call.byte? := by
      cases hv : x.byte? with
      | none => rw [List.filterMap_cons_none hv]; rfl
      | some v => rw [List.filterMap_cons_some hv]; rfl
    rw [hbytes]
    exact hx.trans hrest

/-- **How bytes become sound.**  Let a channel that calls have led to be silent and its buffer
empty, and let a run follow in which its level is not written and it is given bytes only when the
buffer is empty.  Then the level has followed the bits of these bytes, one byte after the other and
each from its lowest bit to its highest, as far as they have gone out, from what it was: up by two
for a one, down by two for a zero, but neither out of 0–127.

After the rest of the turn under way, in which nothing goes out, every eight expirations of the
timer are a turn. In a turn the eight bits of the byte that was in the buffer at its beginning go
out, one at each expiration, or nothing does if there was none, and no byte is passed over or taken
twice.  While no byte is loaded the level does not change, and it is never out of its range. -/
theorem bytes_become_sound (calls : List Channel.Call) :
    let d := calls.foldl call ({} : Dmc)
    d.silent = true → d.buffer = none →
    ∀ run : List Channel.Call, (∀ x ∈ run, x.setsLevel = false) → d.takesAll run = true →
      let e := run.foldl call d
      let bytes := run.filterMap Channel.Call.byte?
      let out := (d.slots run).reduceOption.length
      e.level = ((bytes.flatMap (lowBits 8)).take out).foldl nextLevel d.level ∧
      (d.slots run <+: List.replicate d.bitsLeft none ++ (d.finds run).flatMap turn ∧
        (d.slots run).length + e.bitsLeft = d.bitsLeft + 8 * (d.finds run).length ∧
        0 < e.bitsLeft ∧ e.bitsLeft ≤ 8 ∧ (d.finds run).reduceOption ++ e.buffer.toList = bytes) ∧
      (e.silent = true → ∀ x : Channel.Call, x.setsLevel = false → (e.call x).level = e.level) ∧
      e.level ≤ 127 := by
  intro d hs hb run hl ht e bytes out
  have hd : d.InRange := List.foldlRecOn calls call inRange_initial fun _ h x _ => h.call x
  have he : e.InRange := List.foldlRecOn run call hd fun _ h x _ => h.call x
  have ha : Account d e (d.slots run) (d.finds run) bytes := account_run hd hl ht
  -- at the start nothing is loaded, so the rest of the first turn is empty slots
  have hturns : d.slots run ++ e.restOfTurn =
      List.replicate d.bitsLeft none ++ (d.finds run).flatMap turn := by
    rw [ha.turns, restOfTurn, if_pos hs]
  have hbytes : (d.finds run).reduceOption ++ e.buffer.toList = bytes := by
    rw [ha.bytes, hb]
    rfl
  refine ⟨?_, ⟨⟨_, hturns⟩, ?_, he.bitsLeft_pos, he.bitsLeft_le, hbytes⟩,
    fun hse x hx => level_call_of_silent hse hx, he.level_le⟩
  · -- of the bits of all bytes, those have gone out that are not in the turn under way or in the
    -- buffer
    have hbits := congrArg List.reduceOption hturns
    rw [List.reduceOption_append, List.reduceOption_append, List.reduceOption_replicate_none,
      List.nil_append, reduceOption_flatMap_turn] at hbits
    rw [ha.level, ← hbytes, List.flatMap_append, ← hbits, List.append_assoc, List.take_left']
    rfl
  · have hn := congrArg List.length hturns
    rwa [List.length_append, List.length_append, length_restOfTurn, List.length_replicate,
      length_flatMap_turn] at hn

/-- The highest rate is set in a silent turn, and a byte is given.  The turn ends at the eighth
expiration of the timer; another byte is given, and goes on at the seventeenth, when the first has
been heard. -/
theorem bytes_become_sound_two_bytes :
    let d := [Channel.Call.write 1 0x40].foldl call ({} : Dmc)
    let run : List Channel.Call := .write 0 0x0F :: .fill 0x05 :: List.replicate 379 .clockTimer ++
      .fill 0xFF :: List.replicate 486 .clockTimer
    d.silent = true ∧ d.buffer = none ∧ (∀ x ∈ run, x.setsLevel = false) ∧ d.takesAll run = true ∧
      (run.foldl call d).level = 64 + 2 - 2 + 2 - 2 - 2 - 2 - 2 - 2 + 2 := by
  intro d run
  have hl : ∀ x ∈ run, x.setsLevel = false := by decide +kernel
  have ht : d.takesAll run = true := by decide +kernel
  obtain ⟨hlevel, -⟩ := bytes_become_sound [.write 1 0x40] rfl rfl run hl ht
  have hout : (d.slots run).reduceOption.length = 9 := by decide +kernel
  have hbytes : run.filterMap Channel.Call.byte? = [0x05, 0xFF] := by decide +kernel
  refine ⟨rfl, rfl, hl, ht, ?_⟩
  rw [hout, hbytes] at hlevel
  exact hlevel

end Dmc
end Apu
end Famicom
