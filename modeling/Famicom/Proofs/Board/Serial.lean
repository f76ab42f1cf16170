/-
# The serial board decodes its history

The serial board keeps the bits of one group, four registers and a countdown, and forgets the rest
of its history.  What it holds is nevertheless what the whole history says: the bits are those of
the open group, the registers are what the commands of the deliveries leave, and the countdown runs
for as long as a delivery would not be heard (`Mmc1.Decodes`).  This is so at power-on, and a
delivery and a cycle keep it so (`Mmc1.Decodes.next`, `Mmc1.Decodes.tick`).
-/

import Famicom.Proofs.Bits
import Famicom.Proofs.Board.Blank
import Famicom.Proofs.Board.Decoder

namespace Famicom

namespace Mmc1

/-- Bit 7 of a delivery is asked for in one way by the board and in another by the decoder; -/
theorem resets_eq (d : Delivery) : (d.value &&& 0x80 != 0) = d.resets :=
  and_mask_ne_zero d.value 0x80 rfl

/-- so is bit 0. -/
theorem bit_eq (d : Delivery) : (d.value &&& 0x01 != 0) = d.bit :=
  and_mask_ne_zero d.value 0x01 rfl

/-- Bits 14 and 13 make the number by which an address chooses its register. -/
theorem ofAddress_eq (d : Delivery) : Register.ofAddress d.address = d.register := by
  have hn : d.address.toNat / 0x2000 % 4 =
      2 * (d.address.toNat.testBit 14).toNat + (d.address.toNat.testBit 13).toNat := by
    rw [Nat.toNat_testBit, Nat.toNat_testBit]
    omega
  rw [Register.ofAddress, hn, Delivery.register]
  cases d.address.toNat.testBit 14 <;> cases d.address.toNat.testBit 13 <;> rfl

/-- The first delivery of a group is its lowest bit. -/
theorem groupValue_cons (d : Delivery) (group : List Delivery) :
    groupValue (d :: group) = d.bit.toNat + 2 * groupValue group := by
  have hs (l : List Delivery) (f : Nat → Delivery → Nat) :
      (l.mapIdx fun i d => 2 * f i d).sum = 2 * (l.mapIdx f).sum := by
    induction l generalizing f with
    | nil => rfl
    | cons x l ih =>
      rw [List.mapIdx_cons, List.mapIdx_cons, List.sum_cons, List.sum_cons,
        ih fun i => f (i + 1), Nat.mul_add]
  have he : (fun (i : Nat) (d : Delivery) => d.bit.toNat * 2 ^ (i + 1)) =
      fun i d => 2 * (d.bit.toNat * 2 ^ i) := by
    funext i d
    rw [Nat.pow_succ, ← Nat.mul_assoc, Nat.mul_comm]
  rw [groupValue, List.mapIdx_cons, List.sum_cons, Nat.pow_zero, Nat.mul_one, he, hs]
  rfl

/-- The bits of a group, the first in front, make its number. -/
theorem bitsValue_map_bit (group : List Delivery) :
    bitsValue (group.map Delivery.bit) = groupValue group := by
  induction group with
  | nil => rfl
  | cons d group ih => rw [List.map_cons, bitsValue, ih, groupValue_cons]

/-- What a register holds. -/
def register (m : Mmc1) : Register → UInt8
  | .control => m.control
  | .chrBank0 => m.chrBank0
  | .chrBank1 => m.chrBank1
  | .prgBank => m.prgBank

/-- A load changes the one register that it names. -/
theorem register_load (m : Mmc1) (r s : Register) (v : UInt8) :
    (m.load r v).register s = Function.update m.register r v s := by
  cases r <;> cases s <;> rfl

/-- What a reset does to the control register keeps it within its bits. -/
theorem control_reset_lt {v : UInt8} (h : v < 32) : v ||| 0x0C < 32 := by
  have hv : v.toNat < 2 ^ 5 := h
  have ho : v.toNat ||| 12 < 2 ^ 5 := Nat.or_lt_two_pow hv (by decide)
  rw [UInt8.lt_iff_toNat_lt, UInt8.toNat_or]
  exact ho

/-! ### What the board holds of its history -/

/-- The cycles for which a board does not listen after it has heard so much. -/
def Hearing.silence (h : Hearing) : Nat := h.sinceStore.elim 0 fun n => lockoutCycles - n

/-- **A board holds what has been heard**: the bits of the open group, what the commands leave in
the registers, and the rest of the time in which nothing is heard. -/
structure Decodes (h : Hearing) (m : Mmc1) : Prop where
  received : m.received = (openGroup h.heard).map Delivery.bit
  registers : ∀ r, (m.register r).toNat = decode h.heard r
  bounded : ∀ r, m.register r < 32
  lockout : m.lockout = h.silence

/-- At power-on nothing has been heard. -/
theorem decodes_powerOn : Decodes {} {} where
  received := rfl
  registers r := by cases r <;> rfl
  bounded r := by cases r <;> decide
  lockout := rfl

namespace Decodes

variable {h : Hearing} {m : Mmc1}

/-- In a cycle the time in which nothing is heard gets shorter, and the registers stay. -/
theorem tick (k : Decodes h m) : Decodes (h.next .tick) m.tick := by
  have hl : m.tick.lockout = (h.next .tick).silence := by
    rw [lockout_tick, k.lockout]
    unfold Hearing.silence Hearing.next
    cases h.sinceStore with
    | none => rfl
    | some n => exact Nat.sub_sub ..
  have he : m.tick = { m with lockout := m.tick.lockout } := by
    unfold Mmc1.tick
    split <;> rfl
  rw [he]
  exact ⟨k.received, k.registers, k.bounded, hl⟩

/-- A board does not listen exactly when a delivery would not be heard. -/
theorem deaf_iff (k : Decodes h m) : h.deaf = true ↔ 0 < m.lockout := by
  rw [k.lockout, Hearing.deaf, Hearing.silence]
  cases h.sinceStore with
  | none => simp
  | some n =>
    simp only [Option.any_some, Option.elim_some, lockoutCycles, decide_eq_true_eq]
    omega

/-- A decoder that is not deaf goes with a board that is not locked. -/
theorem listens (k : Decodes h m) (hh : h.deaf = false) : ¬0 < m.lockout := by
  rw [← k.deaf_iff, hh]
  exact Bool.false_ne_true

/-- A delivery that resets throws the open group away and changes the control register. -/
theorem reset (k : Decodes h m) {d : Delivery} (hh : h.deaf = false) (hd : d.resets = true) :
    Decodes (h.next (.deliver d)) (m.write d.address d.value) := by
  have hc : command? (h.heard ++ [d]) = some .reset := command?_concat_of_resets hd
  have hn : h.next (.deliver d) = { h with heard := h.heard ++ [d] } := by
    rw [Hearing.next_deliver hh, hc]
    rfl
  have hw : m.write d.address d.value =
      { m with received := [], control := m.control ||| 0x0C } := by
    rw [Mmc1.write, if_neg (k.listens hh), resets_eq, if_pos hd]
  -- the decoder hears a command that opens a new group, and the board drops what it has received
  rw [hn, hw]
  refine ⟨?_, fun r => ?_, fun r => ?_, k.lockout⟩
  · rw [openGroup_concat_of_resets hd]
    rfl
  · rw [decode_concat, hc]
    cases r with
    | control =>
      have hr := k.registers .control
      show (m.control ||| 0x0C).toNat = decode h.heard .control ||| 12
      rw [UInt8.toNat_or, ← hr]
      rfl
    | chrBank0 => exact k.registers .chrBank0
    | chrBank1 => exact k.registers .chrBank1
    | prgBank => exact k.registers .prgBank
  · cases r with
    | control => exact control_reset_lt (k.bounded .control)
    | chrBank0 => exact k.bounded .chrBank0
    | chrBank1 => exact k.bounded .chrBank1
    | prgBank => exact k.bounded .prgBank

/-- The bits that have been received once a delivery has been heard. -/
theorem receive_eq (k : Decodes h m) (d : Delivery) :
    m.receive d.value = (openGroup h.heard ++ [d]).map Delivery.bit := by
  rw [receive, k.received, bit_eq, List.map_append, List.map_singleton]

/-- A delivery that completes no group leaves its bit. -/
theorem append (k : Decodes h m) {d : Delivery} (hh : h.deaf = false) (hd : d.resets = false)
    (hn : (openGroup h.heard).length < 4) :
    Decodes (h.next (.deliver d)) (m.write d.address d.value) := by
  have hc := command?_concat hd hn
  have hs : h.next (.deliver d) = { h with heard := h.heard ++ [d] } := by
    rw [Hearing.next_deliver hh, hc]
    rfl
  have hl : (m.receive d.value).length < groupSize := by
    rw [k.receive_eq, List.length_map, List.length_append, List.length_singleton, groupSize]
    omega
  have hw : m.write d.address d.value = { m with received := m.receive d.value } := by
    rw [Mmc1.write, if_neg (k.listens hh), resets_eq, hd, if_neg Bool.false_ne_true]
    exact if_pos hl
  rw [hs, hw]
  refine ⟨?_, fun r => ?_, k.bounded, k.lockout⟩
  · rw [openGroup_concat hd hn]
    exact k.receive_eq d
  · rw [decode_concat, hc]
    exact k.registers r

/-- The fifth delivery of a group stores the number of the group. -/
theorem store (k : Decodes h m) {d : Delivery} (hh : h.deaf = false) (hd : d.resets = false)
    (hn : (openGroup h.heard).length = 4) :
    Decodes (h.next (.deliver d)) (m.write d.address d.value) := by
  have hc := command?_concat_of_full hd hn
  have hs : h.next (.deliver d) = { heard := h.heard ++ [d], sinceStore := some 0 } := by
    rw [Hearing.next_deliver hh, hc]
    rfl
  -- five bits are complete: the board stores their value, and the decoder the value of its group
  have hl : (m.receive d.value).length = groupSize := by
    rw [k.receive_eq, List.length_map, List.length_append, List.length_singleton, hn, groupSize]
  have hv : bitsValue (m.receive d.value) = groupValue (openGroup h.heard ++ [d]) := by
    rw [k.receive_eq, bitsValue_map_bit]
  have hb : groupValue (openGroup h.heard ++ [d]) < 32 := by
    have := bitsValue_lt (m.receive d.value)
    rwa [hl, hv] at this
  have hw : m.write d.address d.value =
      { m.load d.register (UInt8.ofNat (groupValue (openGroup h.heard ++ [d]))) with
        received := [], lockout := lockoutCycles } := by
    rw [Mmc1.write, if_neg (k.listens hh), resets_eq, hd, if_neg Bool.false_ne_true,
      ← ofAddress_eq, ← hv]
    exact if_neg (by rw [hl]; exact Nat.lt_irrefl _)
  have ht : (UInt8.ofNat (groupValue (openGroup h.heard ++ [d]))).toNat =
      groupValue (openGroup h.heard ++ [d]) := by
    rw [UInt8.toNat_ofNat']
    omega
  -- both store it in the register that the address names, and nowhere else
  have hr (r : Register) : (m.write d.address d.value).register r =
      Function.update m.register d.register
        (UInt8.ofNat (groupValue (openGroup h.heard ++ [d]))) r := by
    rw [hw, ← register_load]
    cases r <;> rfl
  refine ⟨?_, fun r => ?_, fun r => ?_, ?_⟩
  · rw [hs, hw, openGroup_concat_of_full hd hn]
    rfl
  · rw [hr, hs, decode_concat, hc]
    show _ = Function.update (decode h.heard) d.register _ r
    by_cases he : r = d.register
    · rw [he, Function.update_self, Function.update_self, ht]
    · rw [Function.update_of_ne he, Function.update_of_ne he]
      exact k.registers r
  · rw [hr]
    by_cases he : r = d.register
    · rw [he, Function.update_self, UInt8.lt_iff_toNat_lt, ht]
      exact hb
    · rw [Function.update_of_ne he]
      exact k.bounded r
  · rw [hs, hw]
    rfl

/-- **A board goes on holding what has been heard.** -/
theorem next (k : Decodes h m) (d : Delivery) :
    Decodes (h.next (.deliver d)) (m.write d.address d.value) := by
  cases hh : h.deaf with
  | true =>
    rw [Hearing.next_of_deaf hh, Mmc1.write, if_pos (k.deaf_iff.1 hh)]
    exact k
  | false =>
    cases hd : d.resets with
    | true => exact k.reset hh hd
    | false =>
      have hn := length_openGroup h.heard
      by_cases hl : (openGroup h.heard).length < 4
      · exact k.append hh hd hl
      · exact k.store hh hd (by omega)

end Decodes

end Mmc1

namespace Board

open Mmc1 (Decodes Hearing Moment)

/-! ### Histories of a board -/

/-- The board a moment later. -/
def next (b : Board) : Moment → Board
  | .deliver d => b.writeCpu d.address d.value
  | .tick => b.tick

/-- The board that a history leaves. -/
def after (b : Board) (history : List Moment) : Board := history.foldl next b

/-- A serial board stays one, and holds what has been heard after each moment. -/
theorem wiring_next {b : Board} {m : Mmc1} {h : Hearing} (hb : b.wiring = .mmc1 m)
    (k : Decodes h m) (x : Moment) :
    ∃ n, (b.next x).wiring = .mmc1 n ∧ Decodes (h.next x) n := by
  cases x with
  | tick =>
    refine ⟨m.tick, ?_, k.tick⟩
    rw [next, Board.tick, hb]
    dsimp only
    split
    · rename_i hl
      rw [hb, Mmc1.tick, if_pos hl]
    · rfl
  | deliver d =>
    have h₁ : ¬d.address < 0x6000 := UInt16.not_lt.2 (UInt16.le_trans (by decide) d.reaches)
    have h₂ : ¬d.address < 0x8000 := UInt16.not_lt.2 d.reaches
    refine ⟨m.write d.address d.value, ?_, k.next d⟩
    rw [next, writeCpu, if_neg h₁, if_neg h₂, hb]
    rfl

/-- A board whose registers hold what has been heard goes on to do so. -/
theorem wiring_after {b : Board} {m : Mmc1} {h : Hearing} (hb : b.wiring = .mmc1 m)
    (k : Decodes h m) (history : List Moment) :
    ∃ n, (b.after history).wiring = .mmc1 n ∧ Decodes (history.foldl Hearing.next h) n := by
  induction history generalizing b m h with
  | nil => exact ⟨m, hb, k⟩
  | cons x rest ih =>
    obtain ⟨n, hn, kn⟩ := wiring_next hb k x
    exact ih hn kn

/-- **The serial board decodes its history.**  From power-on, whatever is delivered and however
many cycles pass between, the registers are what the deliveries heard say, and the bits received
are those of the group that is open: fewer than five, and of a value that fits them. -/
theorem registers_eq_decode (c : Cartridge) (hc : c.header.board = 1) :
    ∃ b, Board.ofCartridge c = .ok b ∧ ∀ history, ∃ m, (b.after history).wiring = .mmc1 m ∧
      (∀ r, (m.register r).toNat = Mmc1.decode (Hearing.ofHistory history).heard r) ∧
      m.received = (Mmc1.openGroup (Hearing.ofHistory history).heard).map Mmc1.Delivery.bit ∧
      m.received.length = (Mmc1.openGroup (Hearing.ofHistory history).heard).length ∧
      m.received.length < 5 ∧
      bitsValue m.received < 2 ^ m.received.length ∧
      ∀ r, m.register r < 32 := by
  obtain ⟨b, hb, hw⟩ : ∃ b, Board.ofCartridge c = .ok b ∧ b.wiring = .mmc1 {} := by
    rw [Board.ofCartridge, hc]
    exact ⟨_, rfl, rfl⟩
  refine ⟨b, hb, fun history => ?_⟩
  obtain ⟨m, hm, k⟩ := wiring_after hw Mmc1.decodes_powerOn history
  have hl : m.received.length = (Mmc1.openGroup (Hearing.ofHistory history).heard).length := by
    rw [k.received, List.length_map]
    rfl
  have hn := Mmc1.length_openGroup (Hearing.ofHistory history).heard
  have hv := bitsValue_lt m.received
  rw [Nat.one_shiftLeft] at hv
  exact ⟨m, hm, k.registers, k.received, hl, by omega, hv, k.bounded⟩

/-- A reset, a group for the program bank with three addresses in it, and two deliveries that come
too early, one of which would reset. -/
theorem registers_eq_decode_group :
    let c := Cartridge.blank 0x10
    let history : List Moment :=
      [.deliver { address := 0x8000, value := 0x80 }, .deliver { address := 0x8000, value := 1 },
        .deliver { address := 0xA000, value := 0 }, .tick,
        .deliver { address := 0xC000, value := 1 }, .deliver { address := 0x8000, value := 0 },
        .deliver { address := 0xE000, value := 0 }, .deliver { address := 0x8000, value := 0x80 },
        .tick, .tick, .deliver { address := 0x8000, value := 1 }, .tick,
        .deliver { address := 0x8000, value := 1 }]
    c.header.board = 1 ∧ ∃ b, Board.ofCartridge c = .ok b ∧
      ∃ m, (b.after history).wiring = .mmc1 m ∧ m.prgBank.toNat = 5 ∧ m.received = [true] := by
  intro c history
  have hc : c.header.board = 1 := by decide
  obtain ⟨b, hb, h⟩ := registers_eq_decode c hc
  obtain ⟨m, hm, hr, hg, _⟩ := h history
  exact ⟨hc, b, hb, m, hm, (hr .prgBank).trans (by decide), hg.trans (by decide)⟩

end Board
end Famicom
