/-
# The reader and the shifter

The delta modulation channel is two machines that share a buffer of one byte.  The reader is given a
byte when the buffer is empty, and what it does next hangs on nothing but itself
(`Dmc.Reader.next`).  The shifter takes the buffer when its eight bits are used up.  Whatever a run
has been, a log of the two says that the reader has gone on once for each byte, and that the bytes
it was given are those that the shifter has taken and the one in the buffer, in order
(`Dmc.Follows`).
-/

import Famicom.Apu.Dmc
import Mathlib.Logic.Function.Iterate

namespace Famicom
namespace Apu
namespace Dmc

/-- What the reader goes by. -/
structure Reader where
  irqEnabled : Bool
  looping : Bool
  sampleAddress : UInt16
  sampleLength : Nat
  address : UInt16
  bytesLeft : Nat
  irq : Bool
deriving DecidableEq, Repr

/-- The reader of a channel. -/
def reader (d : Dmc) : Reader where
  irqEnabled := d.irqEnabled
  looping := d.looping
  sampleAddress := d.sampleAddress
  sampleLength := d.sampleLength
  address := d.address
  bytesLeft := d.bytesLeft
  irq := d.irq

namespace Reader

/-- The reader after it has been given a byte. -/
def next (r : Reader) : Reader :=
  let r := { r with address := nextAddress r.address, bytesLeft := r.bytesLeft - 1 }
  if r.bytesLeft ≠ 0 then r
  else if r.looping then { r with address := r.sampleAddress, bytesLeft := r.sampleLength }
  else { r with irq := r.irq || r.irqEnabled }

/-- The reader stands at the start of its sample and requests no interrupt. -/
structure AtStart (r : Reader) : Prop where
  address : r.address = r.sampleAddress
  bytesLeft : r.bytesLeft = r.sampleLength
  length_pos : 0 < r.sampleLength
  irq : r.irq = false

variable {r : Reader}

/-- A reader that has yet to begin is at the first byte of its sample. -/
theorem AtStart.iterate_zero (h : r.AtStart) :
    r = { r with address := r.sampleAddress, bytesLeft := r.sampleLength, irq := false } := by
  obtain ⟨ha, hb, -, hi⟩ := h
  cases r
  dsimp only at ha hb hi
  rw [ha, hb, hi]

/-- **A reader that plays its sample once** reads one byte after the other, and when it has read the
last one it requests an interrupt if it may. -/
theorem AtStart.iterate_next (h : r.AtStart) (hl : r.looping = false) {i : Nat}
    (hi : i ≤ r.sampleLength) :
    next^[i] r = { r with
      address := nextAddress^[i] r.sampleAddress
      bytesLeft := r.sampleLength - i
      irq := r.irqEnabled && i == r.sampleLength } := by
  induction i with
  | zero =>
    have hn : (0 == r.sampleLength) = false := beq_false_of_ne (Nat.ne_of_lt h.length_pos)
    rw [hn, Bool.and_false]
    exact h.iterate_zero
  | succ i ih =>
    have hn : (i == r.sampleLength) = false := beq_false_of_ne (by omega)
    rw [Function.iterate_succ_apply', ih (by omega), Function.iterate_succ_apply', hn,
      Bool.and_false, next]
    dsimp only
    rw [Nat.sub_sub, hl]
    by_cases he : i + 1 = r.sampleLength
    · rw [if_neg (by omega), if_neg Bool.false_ne_true, beq_iff_eq.2 he, Bool.false_or,
        Bool.and_true]
    · rw [if_pos (by omega), beq_false_of_ne he, Bool.and_false]

/-- **A reader that plays its sample over and over** is where it was a sample's length ago, and
requests no interrupt. -/
theorem AtStart.iterate_next_of_looping (h : r.AtStart) (hl : r.looping = true) (i : Nat) :
    next^[i] r = { r with
      address := nextAddress^[i % r.sampleLength] r.sampleAddress
      bytesLeft := r.sampleLength - i % r.sampleLength
      irq := false } := by
  have hp := h.length_pos
  induction i with
  | zero =>
    rw [Nat.zero_mod]
    exact h.iterate_zero
  | succ i ih =>
    have hm := Nat.mod_lt i hp
    rw [Function.iterate_succ_apply', ih, next]
    dsimp only
    rw [Nat.sub_sub, hl, ← Function.iterate_succ_apply' nextAddress]
    -- the next byte is one of the sample, or the sample is over and starts again
    rcases Nat.lt_or_ge (i % r.sampleLength + 1) r.sampleLength with he | he
    · have hs : (i + 1) % r.sampleLength = i % r.sampleLength + 1 := by
        rw [Nat.add_mod, Nat.mod_eq_of_lt (by omega : 1 < r.sampleLength), Nat.mod_eq_of_lt he]
      rw [if_pos (by omega), hs]
    · have hs : (i + 1) % r.sampleLength = 0 := by
        have hd := Nat.mod_add_div i r.sampleLength
        have hi : i + 1 = r.sampleLength * (i / r.sampleLength + 1) := by
          rw [Nat.mul_add]
          omega
        rw [hi, Nat.mul_mod_right]
      rw [if_neg (by omega), if_pos rfl, hs]
      rfl

/-- A sample of two bytes that loops: the third byte that is read is the first again. -/
example (r : Reader) (h : r.AtStart) (hl : r.looping = true) (hn : r.sampleLength = 2) :
    (next^[3] r).bytesLeft = 1 := by
  simp [h.iterate_next_of_looping hl, hn]

end Reader

/-! ### The channel and its reader

The channel is more than its reader: it has a timer, a shifter and the buffer between the two.  A
byte that is filled in takes the reader a step on, and nothing else does. -/

/-- Filling the buffer takes the reader to its next byte. -/
theorem reader_fill (d : Dmc) (v : UInt8) : (d.fill v).reader = d.reader.next := by
  unfold fill
  dsimp only
  split
  · rename_i hn
    exact (if_pos hn).symm
  · rename_i hn
    refine Eq.trans ?_ (if_neg hn).symm
    split
    · rename_i hl
      exact (if_pos hl).symm
    · rename_i hl
      exact (if_neg hl).symm

/-- A byte that is given to the reader goes to the buffer; the shifter is not touched. -/
theorem fill_eq (d : Dmc) (v : UInt8) : ∃ address bytesLeft irq,
    d.fill v = { d with buffer := some v, address, bytesLeft, irq } := by
  unfold fill
  dsimp only
  split
  · exact ⟨_, _, _, rfl⟩
  · split <;> exact ⟨_, _, _, rfl⟩

/-- The byte that was read is in the buffer. -/
theorem buffer_fill (d : Dmc) (v : UInt8) : (d.fill v).buffer = some v := by
  obtain ⟨address, bytesLeft, irq, h⟩ := d.fill_eq v
  rw [h]

/-- Whether the last bit in the shifter is used up in the next cycle of the timer. -/
def endsByte (d : Dmc) : Bool := d.timer == 0 && decide (d.bitsLeft ≤ 1)

/-- **What a cycle of the timer does**: it passes, a bit is used up, or the last one is and the
shifter takes what is in the buffer. -/
theorem clockTimer_cases (d : Dmc) :
    (d.endsByte = false ∧ 0 < d.timer ∧ d.clockTimer = { d with timer := d.timer - 1 }) ∨
    (d.endsByte = false ∧ d.timer = 0 ∧ 1 < d.bitsLeft ∧ ∃ level, d.clockTimer =
      { d with
        timer := d.rate - 1, level, shift := d.shift >>> 1, bitsLeft := d.bitsLeft - 1 }) ∨
    (d.endsByte = true ∧ d.timer = 0 ∧ d.bitsLeft ≤ 1 ∧ ∃ level, d.clockTimer =
      { d with
        timer := d.rate - 1, level, bitsLeft := 8, buffer := none
        shift := d.buffer.getD (d.shift >>> 1), silent := d.buffer.isNone }) := by
  unfold clockTimer endsByte
  -- the timer counts down, or it expires and a bit is shifted out
  by_cases ht : 0 < d.timer
  · rw [if_pos ht, beq_false_of_ne (Nat.ne_of_gt ht)]
    exact .inl ⟨rfl, ht, rfl⟩
  · rw [if_neg ht, beq_iff_eq.2 (Nat.eq_zero_of_not_pos ht), shiftOut]
    dsimp only
    -- that bit was the last of its byte, or it was not
    by_cases hb : d.bitsLeft ≤ 1
    · have hn : ¬ d.bitsLeft - 1 ≠ 0 := by omega
      rw [if_neg hn, decide_eq_true hb]
      refine .inr (.inr ⟨rfl, Nat.eq_zero_of_not_pos ht, hb, ?_⟩)
      cases hv : d.buffer with
      | none => exact ⟨_, rfl⟩
      | some v => exact ⟨_, rfl⟩
    · rw [if_pos (by omega), decide_eq_false hb]
      exact .inr (.inl ⟨rfl, Nat.eq_zero_of_not_pos ht, by omega, _, rfl⟩)

/-- The shifter does not move the reader. -/
theorem reader_clockTimer (d : Dmc) : d.clockTimer.reader = d.reader := by
  obtain ⟨-, -, h⟩ | ⟨-, -, -, l, h⟩ | ⟨-, -, -, l, h⟩ := d.clockTimer_cases <;> rw [h] <;> rfl

/-- The shifter does not change the rate. -/
theorem rate_clockTimer (d : Dmc) : d.clockTimer.rate = d.rate := by
  obtain ⟨-, -, h⟩ | ⟨-, -, -, l, h⟩ | ⟨-, -, -, l, h⟩ := d.clockTimer_cases <;> rw [h]

/-- The shifter empties the buffer when a byte ends, and only then. -/
theorem buffer_clockTimer (d : Dmc) :
    d.clockTimer.buffer = if d.endsByte then none else d.buffer := by
  obtain ⟨he, -, h⟩ | ⟨he, -, -, l, h⟩ | ⟨he, -, -, l, h⟩ := d.clockTimer_cases <;>
    rw [h, he] <;> rfl

/-- The byte that the shifter takes in the next cycle of the timer: what stands in it afterwards, if
the buffer has been emptied. -/
def taken? (d : Dmc) : Option UInt8 :=
  if d.buffer.isSome && d.clockTimer.buffer.isNone then some d.clockTimer.shift else none

/-- What the shifter takes is what was in the buffer. -/
theorem taken?_eq (d : Dmc) : d.taken? = if d.endsByte then d.buffer else none := by
  unfold taken?
  obtain ⟨he, -, h⟩ | ⟨he, -, -, l, h⟩ | ⟨he, -, -, l, h⟩ := d.clockTimer_cases <;> rw [h, he] <;>
    cases d.buffer <;> rfl

/-! ### What happens to the bytes

A cycle can do two things to a byte: take it from the buffer, and read the next one into it, in
this order. -/

/-- Something that happens to a byte of the sample. -/
inductive Event where
  /-- The reader has been given the byte at an address. -/
  | fetch (address : UInt16) (v : UInt8)
  /-- The shifter has taken a byte. -/
  | take (v : UInt8)
deriving DecidableEq, Repr

namespace Event

/-- The address of a byte that the reader has been given. -/
def address? : Event → Option UInt16
  | fetch address _ => some address
  | take _ => none

/-- A byte that the reader has been given. -/
def fetched? : Event → Option UInt8
  | fetch _ v => some v
  | take _ => none

/-- A byte that the shifter has taken. -/
def taken? : Event → Option UInt8
  | fetch _ _ => none
  | take v => some v

end Event

/-- The reader is given the byte that it wants, if it wants one, from a memory. -/
def serve (d : Dmc) (byteAt : UInt16 → UInt8) : Dmc :=
  match d.fetchAddress? with
  | none => d
  | some address => d.fill (byteAt address)

/-- A cycle passes, and the reader is given the byte that it wants. -/
def cycle (d : Dmc) (byteAt : UInt16 → UInt8) : Dmc := d.clockTimer.serve byteAt

/-- What happens when the shifter's turn comes. -/
def takeEvents (d : Dmc) : List Event := (d.taken?.map .take).toList

/-- What happens when the reader's turn comes. -/
def fetchEvents (d : Dmc) (byteAt : UInt16 → UInt8) : List Event :=
  (d.fetchAddress?.map fun address => .fetch address (byteAt address)).toList

/-- What happens in a cycle, the first event in front. -/
def cycleEvents (d : Dmc) (byteAt : UInt16 → UInt8) : List Event :=
  d.takeEvents ++ d.clockTimer.fetchEvents byteAt

/-- A byte is asked for if the buffer is empty and bytes are left, and at the address of the
reader. -/
theorem fetchAddress?_cases (d : Dmc) :
    (d.fetchAddress? = none ∧ (d.buffer = none → d.bytesLeft = 0)) ∨
      (d.fetchAddress? = some d.address ∧ d.buffer = none ∧ 0 < d.bytesLeft) := by
  unfold fetchAddress? active
  cases hb : d.buffer with
  | some v => exact .inl ⟨rfl, nofun⟩
  | none =>
    by_cases hn : 0 < d.bytesLeft
    · exact .inr ⟨by simp [hn], rfl, hn⟩
    · exact .inl ⟨by simp [hn], fun _ => Nat.eq_zero_of_not_pos hn⟩

/-! ### The channel follows its reader -/

/-- **What has happened to a sample.**  For a reader that began as `r` the log says what it has
read: it has gone on once for each byte; each byte came from where the reader stood; the bytes it
has been given are those that the shifter has taken and the one in the buffer; and whenever it was
given one, the shifter had taken all those before. -/
structure Follows (r : Reader) (log : List Event) (d : Dmc) : Prop where
  reader : d.reader = Reader.next^[(log.filterMap Event.address?).length] r
  addresses : ∀ i address, (log.filterMap Event.address?)[i]? = some address →
    address = (Reader.next^[i] r).address ∧ 0 < (Reader.next^[i] r).bytesLeft
  bytes : log.filterMap Event.fetched? = log.filterMap Event.taken? ++ d.buffer.toList
  inTurn : ∀ before address v rest, log = before ++ .fetch address v :: rest →
    before.filterMap Event.fetched? = before.filterMap Event.taken?

variable {r : Reader} {log : List Event} {d : Dmc}

/-- A byte that is taken has no address. -/
theorem filterMap_address?_take (v : UInt8) :
    [Event.take v].filterMap Event.address? = [] :=
  rfl

/-- A byte that is read has one. -/
theorem filterMap_address?_fetch (address : UInt16) (v : UInt8) :
    [Event.fetch address v].filterMap Event.address? = [address] :=
  rfl

/-- Before anything has happened. -/
theorem follows_nil (h : d.buffer = none) : Follows d.reader [] d where
  reader := rfl
  addresses i address hi := by simp at hi
  bytes := by simp [h]
  inTurn before address v rest hl := by simp at hl

/-- An element of a list with one more at its end is that one, or was there before. -/
theorem concat_eq_append_cons {α : Type} {l before rest : List α} {x y : α}
    (h : l ++ [y] = before ++ x :: rest) :
    (l = before ∧ y = x) ∨ ∃ rest', l = before ++ x :: rest' := by
  rcases rest.eq_nil_or_concat with rfl | ⟨rest', z, rfl⟩
  · obtain ⟨hl, hx⟩ := List.append_inj' h rfl
    exact .inl ⟨hl, (List.cons.inj hx).1⟩
  · rw [List.concat_eq_append, ← List.cons_append, ← List.append_assoc] at h
    exact .inr ⟨rest', (List.append_inj' h rfl).1⟩

/-- The shifter's turn. -/
theorem Follows.clockTimer (h : Follows r log d) :
    Follows r (log ++ d.takeEvents) d.clockTimer := by
  have hb := h.bytes
  unfold takeEvents
  rw [taken?_eq]
  -- a cycle takes a byte only at the end of one, and only if there is one in the buffer
  by_cases he : d.endsByte = true ∧ d.buffer.isSome = true
  · obtain ⟨v, hv⟩ := Option.isSome_iff_exists.1 he.2
    rw [if_pos he.1, hv]
    rw [hv] at hb
    have ht : (Option.map Event.take (some v)).toList = [.take v] := rfl
    rw [ht]
    refine ⟨?_, ?_, ?_, ?_⟩
    · rw [reader_clockTimer, h.reader, List.filterMap_append, filterMap_address?_take,
        List.append_nil]
    · rw [List.filterMap_append, filterMap_address?_take, List.append_nil]
      exact h.addresses
    · rw [List.filterMap_append, List.filterMap_append, hb, buffer_clockTimer, if_pos he.1]
      rfl
    · intro before address w rest hl
      obtain ⟨-, hw⟩ | ⟨rest', hl'⟩ := concat_eq_append_cons hl
      · cases hw
      · exact h.inTurn before address w rest' hl'
  · -- otherwise the log and the buffer stay as they are
    have hn : (if d.endsByte then d.buffer else none) = none := by
      split
      · rename_i ht
        simpa [ht] using he
      · rfl
    have hk : d.clockTimer.buffer = d.buffer := by
      rw [buffer_clockTimer]
      split
      · rename_i ht
        rw [if_pos ht] at hn
        exact hn.symm
      · rfl
    rw [hn, Option.map_none, Option.toList_none, List.append_nil]
    exact ⟨by rw [reader_clockTimer, h.reader], h.addresses, by rw [hk, hb], h.inTurn⟩

/-- The reader's turn. -/
theorem Follows.serve (h : Follows r log d) (byteAt : UInt16 → UInt8) :
    Follows r (log ++ d.fetchEvents byteAt) (d.serve byteAt) := by
  have hb := h.bytes
  unfold fetchEvents Dmc.serve
  obtain ⟨ha, -⟩ | ⟨ha, he, hl⟩ := d.fetchAddress?_cases
  · rw [ha, Option.map_none, Option.toList_none, List.append_nil]
    exact h
  · have hr := h.reader
    rw [he, Option.toList_none, List.append_nil] at hb
    rw [ha, Option.map_some, Option.toList_some]
    refine ⟨?_, ?_, ?_, ?_⟩
    · rw [List.filterMap_append, filterMap_address?_fetch, List.length_append,
        List.length_singleton, Function.iterate_succ_apply', ← hr]
      exact reader_fill d _
    · intro i address hi
      rw [List.filterMap_append, filterMap_address?_fetch] at hi
      rcases Nat.lt_trichotomy i (log.filterMap Event.address?).length with hlt | rfl | hgt
      · rw [List.getElem?_append_left hlt] at hi
        exact h.addresses i address hi
      · -- the byte that the reader is given now
        rw [List.getElem?_append_right (Nat.le_refl _), Nat.sub_self] at hi
        obtain rfl := Option.some.inj hi
        rw [← hr]
        exact ⟨rfl, hl⟩
      · rw [List.getElem?_eq_none (by rw [List.length_append]; exact hgt)] at hi
        cases hi
    · rw [List.filterMap_append, List.filterMap_append, hb, List.append_assoc]
      exact congrArg (_ ++ Option.toList ·) (buffer_fill d _).symm
    · intro before address w rest hs
      obtain ⟨rfl, -⟩ | ⟨rest', hs'⟩ := concat_eq_append_cons hs
      · exact hb
      · exact h.inTurn before address w rest' hs'

/-- **A cycle goes on with the sample.** -/
theorem Follows.cycle (h : Follows r log d) (byteAt : UInt16 → UInt8) :
    Follows r (log ++ d.cycleEvents byteAt) (d.cycle byteAt) := by
  rw [cycleEvents, ← List.append_assoc]
  exact h.clockTimer.serve byteAt

end Dmc
end Apu
end Famicom
