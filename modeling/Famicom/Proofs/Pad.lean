/-
# What the controller reports

While the strobe is high the register follows the buttons.  So what it holds when the strobe falls
are the buttons of that moment, and from then on only reads change it, however the host changes the
buttons meanwhile.  After `k` reads the buttons are `k` places further down, with ones behind them
(`Pad.Drained`); a write that leaves the strobe low does nothing.

All this is said of the history of a pad from power-on: which buttons are held and whether the
strobe is high is what the last call that had a say in it has left (`Pad.heldAfter`,
`Pad.strobeAfter`).
-/

import Famicom.Pad
import Famicom.Proofs.Bits
import Mathlib.Data.List.Induction

namespace Famicom

/-- What is done with a pad: the host holds buttons, and the program writes and reads. -/
inductive Pad.Call where
  /-- Hold exactly the buttons of `b`. -/
  | hold (b : UInt8)
  /-- Write a byte. -/
  | write (v : UInt8)
  /-- Read a byte. -/
  | read
deriving DecidableEq, Repr

namespace Pad

/-- The buttons that a call makes the held ones. -/
def Call.held? : Call → Option UInt8
  | hold b => some b
  | _ => none

/-- The strobe that a call leaves, if it has a say in it. -/
def Call.strobe? : Call → Option Bool
  | write v => some (v &&& 0x01 != 0)
  | _ => none

/-- Whether a call leaves the strobe high. -/
def Call.raises (x : Call) : Bool := x.strobe? == some true

/-- A pad after a call. -/
def call (p : Pad) : Call → Pad
  | .hold b => p.hold b
  | .write v => p.write v
  | .read => p.read.2

/-- What the last of some calls that says anything says. -/
def lastSaid {α : Type} (says? : Call → Option α) (initial : α) (calls : List Call) : α :=
  (calls.filterMap says?).getLastD initial

/-- The buttons that are held after some calls from power-on. -/
def heldAfter (calls : List Call) : UInt8 := lastSaid Call.held? 0 calls

/-- Whether the strobe is high after some calls from power-on. -/
def strobeAfter (calls : List Call) : Bool := lastSaid Call.strobe? false calls

/-- A call that says nothing leaves the word of the last one that did. -/
theorem lastSaid_concat {α : Type} (says? : Call → Option α) (initial : α) (calls : List Call)
    (x : Call) :
    lastSaid says? initial (calls ++ [x]) = (says? x).getD (lastSaid says? initial calls) := by
  unfold lastSaid
  rw [List.filterMap_append]
  cases h : says? x with
  | none => rw [List.filterMap_cons_none h, List.filterMap_nil, List.append_nil, Option.getD_none]
  | some y =>
    rw [List.filterMap_cons_some h, List.filterMap_nil, List.getLastD_concat, Option.getD_some]

/-- The last call of the host counts, and the last write to the port. -/
example : heldAfter [.hold 1, .write 1, .hold 6, .read] = 6 ∧
    strobeAfter [.write 1, .read, .write 0xFE] = false := by decide

/-- What is known of a pad from its history.  What the register holds is known while the strobe is
high. -/
structure Recalls (p : Pad) (calls : List Call) : Prop where
  buttons : p.buttons = heldAfter calls
  strobe : p.strobe = strobeAfter calls
  shift : strobeAfter calls = true → p.shift = heldAfter calls

variable {p : Pad} {calls : List Call}

/-- **One call more.** -/
theorem Recalls.next (h : p.Recalls calls) (x : Call) : (p.call x).Recalls (calls ++ [x]) := by
  obtain ⟨hb, hs, hr⟩ := h
  have held : heldAfter (calls ++ [x]) = x.held?.getD (heldAfter calls) := lastSaid_concat ..
  have high : strobeAfter (calls ++ [x]) = x.strobe?.getD (strobeAfter calls) := lastSaid_concat ..
  cases x with
  | hold b =>
    refine ⟨held.symm, hs.trans high.symm, fun hn => ?_⟩
    rw [held]
    exact if_pos (hs.trans (high.symm.trans hn))
  | write v =>
    refine ⟨hb.trans held.symm, high.symm, fun hn => ?_⟩
    rw [held]
    exact (if_pos (high.symm.trans hn)).trans hb
  | read =>
    show (Pad.read p).2.Recalls _
    by_cases hp : p.strobe = true
    · rw [Pad.read, if_pos hp]
      exact ⟨hb.trans held.symm, hs.trans high.symm,
        fun hn => (hr (high.symm.trans hn)).trans held.symm⟩
    · rw [Pad.read, if_neg hp]
      exact ⟨hb.trans held.symm, hs.trans high.symm,
        fun hn => absurd (hs.trans (high.symm.trans hn)) hp⟩

/-- **The pad recalls its calls from power-on.** -/
theorem recalls_foldl_call (calls : List Call) : (calls.foldl call {}).Recalls calls := by
  induction calls using List.reverseRecOn with
  | nil => exact ⟨rfl, rfl, fun h => absurd h Bool.false_ne_true⟩
  | append_singleton calls x ih =>
    rw [List.foldl_append]
    exact ih.next x

/-- A register out of which `k` bits of `b` have been taken: what is left of `b` is `k` places
further down, and ones are behind it. -/
def Drained (b : UInt8) (k : Nat) (shift : UInt8) : Prop :=
  ∀ i < 8, shift.toNat.testBit i = (decide (8 ≤ i + k) || b.toNat.testBit (i + k))

variable {b shift : UInt8} {k : Nat}

/-- Before the first read the register holds the buttons. -/
theorem drained_zero (b : UInt8) : Drained b 0 b := by
  intro i hi
  rw [Nat.add_zero, decide_eq_false (Nat.not_le.2 hi), Bool.false_or]

/-- A read takes one bit more. -/
theorem Drained.read (h : Drained b k shift) : Drained b (k + 1) (shift >>> 1 ||| 0x80) := by
  intro i hi
  have hn : (shift >>> 1 ||| 0x80).toNat = shift.toNat >>> 1 ||| 2 ^ 7 := by
    rw [UInt8.toNat_or, UInt8.toNat_shiftRight]
    rfl
  rw [hn, Nat.testBit_or, Nat.testBit_shiftRight, Nat.testBit_two_pow, Nat.add_comm k 1,
    ← Nat.add_assoc, Nat.add_comm 1 i]
  by_cases h7 : i = 7
  · subst h7
    rw [decide_eq_true rfl, Bool.or_true, decide_eq_true (Nat.le_add_right ..), Bool.true_or]
  · rw [decide_eq_false (Ne.symm h7), Bool.or_false]
    exact h (i + 1) (by omega)

/-- The lowest bit of a byte. -/
theorem and_one_eq (v : UInt8) : v &&& 0x01 = if v.toNat.testBit 0 then 0x01 else 0x00 := by
  rw [Nat.testBit_zero, ← UInt8.toNat_inj, UInt8.toNat_and]
  refine (Nat.and_one_is_mod _).trans ?_
  obtain h | h := Nat.mod_two_eq_zero_or_one v.toNat
  · rw [h]
    rfl
  · rw [h]
    rfl

/-- **What is read** after `k` reads. -/
theorem Drained.lowest (h : Drained b k shift) :
    shift &&& 0x01 ||| openBus =
      if k < 8 then openBus ||| (b >>> UInt8.ofNat k &&& 0x01) else 0x41 := by
  have h₀ := h 0 (by decide)
  rw [Nat.zero_add] at h₀
  rw [and_one_eq, h₀, UInt8.or_comm]
  by_cases hk : k < 8
  · have hn : (UInt8.ofNat k).toNat % 8 = k := by
      rw [UInt8.toNat_ofNat_of_lt' (Nat.lt_trans hk (by decide)), Nat.mod_eq_of_lt hk]
    have hb : (b >>> UInt8.ofNat k).toNat.testBit 0 = b.toNat.testBit k := by
      rw [UInt8.toNat_shiftRight, hn, Nat.testBit_shiftRight, Nat.add_zero]
    rw [if_pos hk, and_one_eq, hb, decide_eq_false (Nat.not_le.2 hk), Bool.false_or]
  · rw [if_neg hk, decide_eq_true (Nat.le_of_not_lt hk), Bool.true_or, if_pos rfl]
    rfl

/-- A pad that reports the buttons of `b`, `k` of which have been read. -/
structure Reports (p : Pad) (b : UInt8) (k : Nat) : Prop where
  strobe : p.strobe = false
  shift : Drained b k p.shift

/-- **When the strobe falls** the buttons of that moment are to be reported. -/
theorem Recalls.fall (h : p.Recalls calls) (hs : strobeAfter calls = true) {v : UInt8}
    (hv : v &&& 0x01 = 0) : (p.write v).Reports (heldAfter calls) 0 := by
  have hlow : (v &&& 0x01 != 0) = false := bne_eq_false_iff_eq.2 hv
  have hw : p.write v = { p with strobe := false } := by
    rw [write, hlow]
    rfl
  rw [hw]
  refine ⟨rfl, ?_⟩
  show Drained _ 0 p.shift
  rw [h.shift hs]
  exact drained_zero _

/-- **Until the strobe is raised** only reads go on in the report. -/
theorem Reports.next (h : p.Reports b k) {x : Call} (hx : x.raises = false) :
    (p.call x).Reports b (k + [x].count .read) := by
  cases x with
  -- the strobe is low, so the latch does not follow the buttons
  | hold held =>
    have hh : p.hold held = { p with buttons := held } := by
      rw [hold, h.strobe]
      rfl
    show (p.hold held).Reports b k
    rw [hh]
    exact ⟨h.strobe, h.shift⟩
  | write v =>
    have hv : (v &&& 0x01 != 0) = false := by simpa [Call.raises, Call.strobe?] using hx
    have hw : p.write v = { p with strobe := false } := by
      rw [write, hv]
      rfl
    show (p.write v).Reports b k
    rw [hw]
    exact ⟨rfl, h.shift⟩
  | read =>
    have hr : (Pad.read p).2 = { p with shift := p.shift >>> 1 ||| 0x80 } := by
      rw [Pad.read, h.strobe]
      rfl
    show (Pad.read p).2.Reports b (k + 1)
    rw [hr]
    exact ⟨h.strobe, h.shift.read⟩

/-- Between writes that raise the strobe every read takes the report a step on. -/
theorem Reports.foldl_call (h : p.Reports b k) {between : List Call}
    (hb : ∀ x ∈ between, x.raises = false) :
    (between.foldl call p).Reports b (k + between.count .read) := by
  induction between generalizing p k with
  | nil => exact h
  | cons x rest ih =>
    have hx := h.next (hb x (List.mem_cons_self ..))
    rw [← List.singleton_append, List.count_append, ← Nat.add_assoc]
    exact ih hx fun y hy => hb y (List.mem_cons_of_mem _ hy)

/-- A read gives the button whose turn it is, and a one when all have had theirs. -/
theorem Reports.answer (h : p.Reports b k) :
    p.read.1 = if k < 8 then openBus ||| (b >>> UInt8.ofNat k &&& 0x01) else 0x41 := by
  rw [Pad.read, h.strobe, if_neg Bool.false_ne_true]
  exact h.shift.lowest

/-- **What the controller reports.**  Whatever has been done with a pad from power-on, as long as
the strobe is high a read gives the first of the buttons held now.  After the strobe has fallen the
reads give, one after the other and from the lowest bit, the buttons that were held at that moment,
and ones when there are no more; it does not matter which buttons are held since, nor what is
written as long as it leaves the strobe low. -/
theorem reports_buttons (before : List Call) (hs : strobeAfter before = true) :
    let b := heldAfter before
    let p := before.foldl call {}
    p.read.1 = openBus ||| (b &&& 0x01) ∧
    ∀ (v : UInt8) (between : List Call), v &&& 0x01 = 0 → (∀ x ∈ between, x.raises = false) →
      let k := between.count .read
      (between.foldl call (p.write v)).read.1 =
        if k < 8 then openBus ||| (b >>> UInt8.ofNat k &&& 0x01) else 0x41 := by
  intro b p
  have hp : p.Recalls before := recalls_foldl_call before
  refine ⟨?_, fun v between hv hb => ?_⟩
  · rw [Pad.read, if_pos (hp.strobe.trans hs), hp.buttons]
    exact UInt8.or_comm ..
  · intro k
    have hk := ((hp.fall hs hv).foldl_call hb).answer
    rwa [Nat.zero_add] at hk

/-- A, Start and Right are held when the strobe falls.  The fourth read gives Start though all
buttons have been released since, and another byte with bit 0 clear has been written; the ninth
gives a one. -/
theorem reports_buttons_released :
    let before : List Call := [.hold 0xFF, .write 0x01, .read, .hold 0x89]
    let between : List Call := [.read, .hold 0x00, .read, .write 0xFE, .read]
    let later : List Call := between ++ List.replicate 5 .read
    let p := before.foldl call {}
    strobeAfter before = true ∧ p.read.1 = 0x41 ∧ (0x02 : UInt8) &&& 0x01 = 0 ∧
      ((∀ x ∈ between, x.raises = false) ∧ (between.foldl call (p.write 0x02)).read.1 = 0x41) ∧
      ((∀ x ∈ later, x.raises = false) ∧ (later.foldl call (p.write 0x02)).read.1 = 0x41) := by
  intro before between later p
  have hs : strobeAfter before = true := by decide
  have hv : (0x02 : UInt8) &&& 0x01 = 0 := by decide
  have h₃ : ∀ x ∈ between, x.raises = false := by decide
  have h₈ : ∀ x ∈ later, x.raises = false := by decide
  obtain ⟨hhigh, hlow⟩ := reports_buttons before hs
  exact ⟨hs, hhigh.trans (by decide), hv, ⟨h₃, (hlow 0x02 between hv h₃).trans (by decide)⟩,
    h₈, (hlow 0x02 later hv h₈).trans (by decide)⟩

end Pad
end Famicom
