/-
# Double writes

The scroll register and the address register are written in two halves each.  One toggle tells the
halves of both apart, a read of the status clears it, and writes to the control register have a
share in the same number:

| write | bits of the start |
| --- | --- |
| scroll, first half | 4–0, and the column in the tile |
| scroll, second half | 14–12 and 9–5 |
| address, first half | 13–8, and bit 14 is cleared |
| address, second half | 7–0, and the place that is being fetched |
| control | 11–10 |

So what a program has written earlier stays in the bits that it does not write.  The two ways to
write them all are the ones of `Ppu.double_writes`: after a read of the status, whatever the
history, the start is what has been written and nothing else.  Between the writes the processor may
do anything that does not touch these registers (`Ppu.Call.steers`).
-/

import Famicom.Proofs.Board.Blank
import Famicom.Proofs.Ppu.Calls
import Famicom.Proofs.Ppu.Places
import Mathlib.Data.List.DropRight

namespace Famicom
namespace Ppu

/-! ### The toggle -/

/-- Whether a call reads the status. -/
def Call.readsStatus : Call → Bool
  | read _ register => register == 2
  | _ => false

/-- Whether a call is one half of a double write. -/
def Call.writesHalf : Call → Bool
  | write _ register _ => register == 5 || register == 6
  | _ => false

theorem Scroll.toggle_writeScroll (s : Scroll) (v : UInt8) :
    (s.writeScroll v).toggle = !s.toggle := by
  unfold writeScroll
  dsimp only
  cases s.toggle <;> rfl

theorem Scroll.toggle_writeAddress (s : Scroll) (v : UInt8) :
    (s.writeAddress v).toggle = !s.toggle := by
  unfold writeAddress
  dsimp only
  cases s.toggle <;> rfl

theorem Standing.toggle_write (s : Standing) (register : Nat) (v : UInt8) :
    (s.write register v).toggle = (s.toggle ^^ (register == 5 || register == 6)) := by
  unfold write
  split
  · exact (Bool.xor_false _).symm
  · exact (Bool.xor_false _).symm
  · exact (s.scroll.toggle_writeScroll v).trans (Bool.xor_true _).symm
  · exact (s.scroll.toggle_writeAddress v).trans (Bool.xor_true _).symm
  · next h₅ h₆ =>
    rw [beq_false_of_ne h₅, beq_false_of_ne h₆]
    exact (Bool.xor_false _).symm

/-- **The toggle.**  A read of the status clears it, one half of a double write turns it over, and
nothing else moves it. -/
theorem toggle_call (p : Ppu) (x : Call) :
    (p.call x).scroll.toggle =
      if x.readsStatus then false else p.scroll.toggle ^^ x.writesHalf := by
  have key {s : Standing} (h : (p.call x).standing = s) : (p.call x).scroll.toggle = s.toggle :=
    congrArg Standing.toggle h
  cases x with
  | tick board => exact (key (standing_tick p board)).trans (Bool.xor_false _).symm
  | read board register =>
    rw [key (standing_read p board register), Standing.read]
    by_cases h : register = 2
    · rw [if_pos h, Call.readsStatus, h]
      rfl
    · rw [if_neg h, Call.readsStatus, beq_false_of_ne h]
      exact (Bool.xor_false _).symm
  | write board register v =>
    exact (key (standing_write p board register v)).trans (Standing.toggle_write ..)
  | writeOam v | takeNmi | clearFrameReady => exact (Bool.xor_false _).symm

/-- The calls since the status was read last, all of them if it was not. -/
def sinceStatus (calls : List Call) : List Call := calls.rtakeWhile fun x => !x.readsStatus

theorem sinceStatus_concat (calls : List Call) (x : Call) :
    sinceStatus (calls ++ [x]) = if x.readsStatus then [] else sinceStatus calls ++ [x] := by
  unfold sinceStatus
  rw [List.rtakeWhile_concat]
  cases x.readsStatus <;> rfl

/-- Whether the halves of double writes among some calls are odd in number. -/
def oddHalves (calls : List Call) : Bool := calls.countP Call.writesHalf % 2 == 1

theorem oddHalves_concat (calls : List Call) (x : Call) :
    oddHalves (calls ++ [x]) = (oddHalves calls ^^ x.writesHalf) := by
  have hm := Nat.mod_two_eq_zero_or_one (calls.countP Call.writesHalf)
  unfold oddHalves
  rw [List.countP_append, List.countP_singleton]
  cases x.writesHalf with
  | false => simp
  | true =>
    obtain h | h := hm
    · simp [Nat.add_mod, h]
    · simp [Nat.add_mod, h]

/-- **The toggle is a parity**, that of the halves written since the status was read last. -/
theorem toggle_foldl_call (p : Ppu) (calls : List Call) :
    (calls.foldl call p).scroll.toggle =
      if calls.any Call.readsStatus then oddHalves (sinceStatus calls)
      else p.scroll.toggle ^^ oddHalves (sinceStatus calls) := by
  induction calls using List.reverseRecOn with
  | nil => exact (Bool.xor_false _).symm
  | append_singleton calls x ih =>
    rw [List.foldl_append, List.foldl_cons, List.foldl_nil, toggle_call, ih, sinceStatus_concat,
      List.any_append, List.any_cons, List.any_nil, Bool.or_false]
    cases x.readsStatus with
    | true =>
      rw [Bool.or_true]
      rfl
    | false =>
      rw [Bool.or_false, if_neg Bool.false_ne_true, if_neg Bool.false_ne_true, oddHalves_concat]
      cases calls.any Call.readsStatus with
      | true => rfl
      | false => exact Bool.xor_assoc ..

/-! ### What is written -/

/-- Whether a call can touch the scroll registers: a dot, a read of the status, an access to
memory, which moves the place that is being fetched, and a write that is meant for them. -/
def Call.steers : Call → Bool
  | tick _ => true
  | read _ register => register == 2 || register == 7
  | write _ register _ => register == 0 || register == 5 || register == 6 || register == 7
  | writeOam _ | takeNmi | clearFrameReady => false

/-- What a read of the status and a write that is meant for them make of the scroll registers. -/
def Scroll.hear (s : Scroll) : Call → Scroll
  | .read _ 2 => s.clearToggle
  | .write _ 0 v => s.setNametable (Control.mk v).nametable
  | .write _ 5 v => s.writeScroll v
  | .write _ 6 v => s.writeAddress v
  | _ => s

theorem scroll_read {register : Nat} (h₂ : register ≠ 2) (h₇ : register ≠ 7) (p : Ppu)
    (board : Board) : (p.read board register).2.scroll = p.scroll := by
  unfold read
  split
  · exact absurd rfl h₂
  · rfl
  · exact absurd rfl h₇
  · rfl

theorem scroll_write {register : Nat} (h₀ : register ≠ 0) (h₅ : register ≠ 5) (h₆ : register ≠ 6)
    (h₇ : register ≠ 7) (p : Ppu) (board : Board) (v : UInt8) :
    (p.write board register v).1.scroll = p.scroll := by
  unfold write
  dsimp only
  rw [if_neg h₇]
  unfold writeOwn
  split
  · exact absurd rfl h₀
  · rfl
  · rfl
  · rfl
  · exact absurd rfl h₅
  · exact absurd rfl h₆
  · rfl

/-- Anything else leaves the scroll registers alone. -/
theorem scroll_call_of_not_steers {x : Call} (h : x.steers = false) (p : Ppu) :
    (p.call x).scroll = p.scroll := by
  cases x with
  | tick board => cases h
  | read board register =>
    simp only [Call.steers, Bool.or_eq_false_iff, beq_eq_false_iff_ne] at h
    exact scroll_read h.1 h.2 p board
  | write board register v =>
    simp only [Call.steers, Bool.or_eq_false_iff, beq_eq_false_iff_ne] at h
    obtain ⟨⟨⟨h₀, h₅⟩, h₆⟩, h₇⟩ := h
    exact scroll_write h₀ h₅ h₆ h₇ p board v
  | writeOam v | takeNmi | clearFrameReady => rfl

/-- **What is between the writes does not matter.** -/
theorem scroll_foldl_call {calls : List Call}
    (h : ∀ x ∈ calls.filter Call.steers, ∀ p : Ppu, (p.call x).scroll = p.scroll.hear x) (p : Ppu) :
    (calls.foldl call p).scroll = (calls.filter Call.steers).foldl Scroll.hear p.scroll := by
  induction calls generalizing p with
  | nil => rfl
  | cons x rest ih =>
    cases hx : x.steers with
    | true =>
      rw [List.filter_cons_of_pos hx] at h ⊢
      obtain ⟨h₁, hr⟩ := List.forall_mem_cons.1 h
      rw [List.foldl_cons, List.foldl_cons, ih hr, h₁]
    | false =>
      have hn : ¬x.steers = true := Bool.eq_false_iff.1 hx
      rw [List.filter_cons_of_neg hn] at h ⊢
      rw [List.foldl_cons, ih h, scroll_call_of_not_steers hx]

/-! ### The start that has been written -/

/-- The parts of a place are its bits. -/
theorem Place.ofParts_eq_or {f l r w c : Nat} (hl : l < 2) (hr : r < 2) (hw : w < 32)
    (hc : c < 32) : ofParts f l r w c = f <<< 12 ||| (2 * l + r) <<< 10 ||| w <<< 5 ||| c := by
  have h₁ : f <<< 12 ||| (2 * l + r) <<< 10 = (4 * f + (2 * l + r)) <<< 10 := by
    rw [← Nat.shiftLeft_add_eq_or_of_lt (by rw [Nat.shiftLeft_eq]; omega)]
    simp only [Nat.shiftLeft_eq]
    omega
  have h₂ : (4 * f + (2 * l + r)) <<< 10 ||| w <<< 5 = (32 * (4 * f + (2 * l + r)) + w) <<< 5 := by
    rw [← Nat.shiftLeft_add_eq_or_of_lt (by rw [Nat.shiftLeft_eq]; omega)]
    simp only [Nat.shiftLeft_eq]
    omega
  rw [h₁, h₂, ← Nat.shiftLeft_add_eq_or_of_lt hc]
  simp only [ofParts, Nat.shiftLeft_eq]
  omega

namespace Scroll

variable (s : Scroll)

/-- Two writes of the scroll and one of the control register leave nothing of the old start. -/
theorem setNametable_writeScroll_writeScroll (x y : UInt8) (n : Nat) :
    ((s.clearToggle.writeScroll x).writeScroll y).setNametable n =
      { s with
        t := Place.ofParts (y.toNat % 8) (n / 2 % 2) (n % 2) (y.toNat / 8) (x.toNat / 8)
        fineX := x.toNat % 8
        toggle := false } := by
  have hx : x.toNat / 8 < 32 := Nat.div_lt_of_lt_mul x.toNat_lt
  have hy : y.toNat / 8 < 32 := Nat.div_lt_of_lt_mul y.toNat_lt
  have hf : y.toNat % 8 < 8 := Nat.mod_lt _ (by omega)
  have hl := Place.lower_lt s.t
  have hr := Place.right_lt s.t
  -- the first write sets the column, the second the rows
  have h₁ : s.clearToggle.writeScroll x =
      { s with
        t := Place.ofParts (Place.fineRow s.t) (Place.lower s.t) (Place.right s.t) (Place.row s.t)
          (x.toNat / 8)
        fineX := x.toNat % 8
        toggle := true } := rfl
  have h₂ : (s.clearToggle.writeScroll x).writeScroll y =
      { s with
        t := Place.ofParts (y.toNat % 8) (Place.lower s.t) (Place.right s.t) (y.toNat / 8)
          (x.toNat / 8)
        fineX := x.toNat % 8
        toggle := false } := by
    have hw := Place.row_lt s.t
    rw [h₁, writeScroll]
    dsimp only
    rw [if_pos rfl, Place.lower_ofParts hl hr hw hx, Place.right_ofParts hr hw hx,
      Place.column_ofParts hx]
  rw [h₂, setNametable]
  dsimp only
  rw [Place.fineRow_ofParts hf hl hr hy hx, Place.row_ofParts hy hx, Place.column_ofParts hx]

/-- Scrolled by 125 and 94 pixels, which is fifteen tiles and five columns, and eleven and six rows.
-/
example : ((({} : Scroll).writeScroll 125).writeScroll 94).t = 0x616F ∧
    ((({} : Scroll).writeScroll 125).writeScroll 94).fineX = 5 := by decide

/-- Two writes of the address leave nothing of the old start, and go there. -/
theorem writeAddress_writeAddress (h l : UInt8) :
    (s.clearToggle.writeAddress h).writeAddress l =
      { s with
        v := h.toNat % 64 * 256 + l.toNat
        t := h.toNat % 64 * 256 + l.toNat
        toggle := false } := by
  have ht : (h.toNat % 64 * 256 + s.t % 256) / 256 * 256 = h.toNat % 64 * 256 := by omega
  have h₁ : s.clearToggle.writeAddress h =
      { s with t := h.toNat % 64 * 256 + s.t % 256, toggle := true } := rfl
  rw [h₁, writeAddress]
  dsimp only
  rw [if_pos rfl, ht]

/-- Of the high byte six bits count. -/
example : ((({} : Scroll).writeAddress 0xFF).writeAddress 0x05).v = 0x3F05 := by decide

end Scroll

/-- After a read of the status, two writes of the scroll and one of the control register, the start
is made of their bits alone. -/
theorem scroll_of_scroll_writes {calls : List Call} {b₀ b₁ b₂ b₃ : Board} {x y n : UInt8}
    (hc : calls.filter Call.steers = [.read b₀ 2, .write b₁ 5 x, .write b₂ 5 y, .write b₃ 0 n])
    (p : Ppu) :
    let s := (calls.foldl call p).scroll
    s.t = (y.toNat &&& 7) <<< 12 ||| (n.toNat &&& 3) <<< 10 ||| (y.toNat >>> 3) <<< 5 |||
        x.toNat >>> 3 ∧
      s.fineX = x.toNat &&& 7 ∧ s.v = p.scroll.v := by
  -- the four calls that steer are heard in their order, whatever comes between them
  have hear : ∀ z ∈ calls.filter Call.steers, ∀ q : Ppu, (q.call z).scroll = q.scroll.hear z := by
    rw [hc]
    simp only [List.forall_mem_cons, List.not_mem_nil, false_imp_iff, implies_true, and_true]
    exact ⟨fun _ => rfl, fun _ => rfl, fun _ => rfl, fun _ => rfl⟩
  have hs := scroll_foldl_call hear p
  rw [hc] at hs
  replace hs := hs.trans
    (p.scroll.setNametable_writeScroll_writeScroll x y (Control.mk n).nametable)
  have hx : x.toNat / 8 < 32 := Nat.div_lt_of_lt_mul x.toNat_lt
  have hy : y.toNat / 8 < 32 := Nat.div_lt_of_lt_mul y.toNat_lt
  have hn : 2 * (n.toNat % 4 / 2 % 2) + n.toNat % 4 % 2 = n.toNat % 4 := by omega
  dsimp only
  rw [hs]
  refine ⟨?_, (Nat.and_two_pow_sub_one_eq_mod x.toNat 3).symm, rfl⟩
  dsimp only
  rw [Control.nametable, Place.ofParts_eq_or (Nat.mod_lt _ Nat.two_pos) (Nat.mod_lt _ Nat.two_pos)
    hy hx, hn, Nat.shiftRight_eq_div_pow, Nat.shiftRight_eq_div_pow,
    Nat.and_two_pow_sub_one_eq_mod y.toNat 3, Nat.and_two_pow_sub_one_eq_mod n.toNat 2]

/-- After a read of the status and two writes of the address, the start and the place that is being
fetched are made of their bits alone. -/
theorem scroll_of_address_writes {calls : List Call} {b₀ b₁ b₂ : Board} {h l : UInt8}
    (hc : calls.filter Call.steers = [.read b₀ 2, .write b₁ 6 h, .write b₂ 6 l]) (p : Ppu) :
    let s := (calls.foldl call p).scroll
    s.v = ((h.toNat &&& 63) <<< 8 ||| l.toNat) ∧ s.t = s.v := by
  have hear : ∀ z ∈ calls.filter Call.steers, ∀ q : Ppu, (q.call z).scroll = q.scroll.hear z := by
    rw [hc]
    simp only [List.forall_mem_cons, List.not_mem_nil, false_imp_iff, implies_true, and_true]
    exact ⟨fun _ => rfl, fun _ => rfl, fun _ => rfl⟩
  have hs := scroll_foldl_call hear p
  rw [hc] at hs
  replace hs := hs.trans (p.scroll.writeAddress_writeAddress h l)
  dsimp only
  rw [hs]
  refine ⟨?_, rfl⟩
  dsimp only
  rw [← Nat.shiftLeft_add_eq_or_of_lt l.toNat_lt, Nat.shiftLeft_eq,
    Nat.and_two_pow_sub_one_eq_mod h.toNat 6]

/-- **Double writes.**  The toggle is the parity of the halves that have been written since the
status was read last, counted on from what it was where the status was not read.  After a read of
the status two writes of the scroll and one of the control register, or two writes of the address,
make the start what they say and leave nothing of what it was; accesses that are not meant for the
scroll registers can come in between. -/
theorem double_writes (p : Ppu) (calls : List Call) :
    ((calls.foldl call p).scroll.toggle =
      if calls.any Call.readsStatus then oddHalves (sinceStatus calls)
      else p.scroll.toggle ^^ oddHalves (sinceStatus calls)) ∧
    (∀ b₀ b₁ b₂ b₃ x y n,
      calls.filter Call.steers = [.read b₀ 2, .write b₁ 5 x, .write b₂ 5 y, .write b₃ 0 n] →
        let s := (calls.foldl call p).scroll
        s.t = (y.toNat &&& 7) <<< 12 ||| (n.toNat &&& 3) <<< 10 ||| (y.toNat >>> 3) <<< 5 |||
            x.toNat >>> 3 ∧
          s.fineX = x.toNat &&& 7 ∧ s.v = p.scroll.v) ∧
    (∀ b₀ b₁ b₂ h l,
      calls.filter Call.steers = [.read b₀ 2, .write b₁ 6 h, .write b₂ 6 l] →
        let s := (calls.foldl call p).scroll
        s.v = ((h.toNat &&& 63) <<< 8 ||| l.toNat) ∧ s.t = s.v) :=
  ⟨toggle_foldl_call p calls,
    fun _ _ _ _ _ _ _ hc => scroll_of_scroll_writes hc p,
    fun _ _ _ _ _ hc => scroll_of_address_writes hc p⟩

/-- A half has been written, and every bit of the start is set; then the scroll is written, with a
byte of object memory and a note of the frame in between. -/
theorem double_writes_scroll :
    let p : Ppu := { scroll := { v := 0x1234, t := 0x7FFF, fineX := 5, toggle := true } }
    let calls : List Call :=
      [.read .blank 2, .write .blank 5 0x7D, .writeOam 9, .write .blank 5 0x5E, .clearFrameReady,
        .read .blank 4, .write .blank 0 0x91]
    let s := (calls.foldl call p).scroll
    s.t = 0x656F ∧ s.fineX = 5 ∧ s.v = 0x1234 ∧ s.toggle = false := by
  intro p calls
  obtain ⟨ht, hs, -⟩ := double_writes p calls
  obtain ⟨h₁, h₂, h₃⟩ := hs .blank .blank .blank .blank 0x7D 0x5E 0x91 rfl
  exact ⟨h₁, h₂, h₃, ht.trans (by decide)⟩

end Ppu
end Famicom
