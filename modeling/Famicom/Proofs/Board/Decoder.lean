/-
# What a history of deliveries means

Seen from outside, the serial board receives deliveries (`Mmc1.Delivery`) and lets cycles pass.
What its registers hold can be read off the whole history.

* A delivery that comes when a group is complete and fewer than three cycles have passed since is
not heard (`Mmc1.Hearing`).
* Those that are heard fall into groups of five, counted from the last one that resets
  (`Mmc1.sinceReset`); what is left over is the group that is open (`Mmc1.openGroup`).
* A delivery that resets is a command, and so is one that completes a group: it stores the number
  that the five bits make, the first the lowest, in the register that its own address chooses
  (`Mmc1.command?`).
* The registers are what the commands leave, one after the other (`Mmc1.decode`).

Nothing of this looks at the state of a board.
-/

import Mathlib.Data.List.DropRight
import Mathlib.Data.List.Infix
import Mathlib.Data.Nat.Bitwise
import Famicom.Board.Mmc1

namespace Famicom
namespace Mmc1

/-- A write to `$8000`–`$FFFF`. -/
structure Delivery where
  address : UInt16
  value : UInt8
  reaches : 0x8000 ≤ address := by decide
deriving DecidableEq, Repr

namespace Delivery

/-- Whether a delivery throws the open group away: bit 7. -/
def resets (d : Delivery) : Bool := d.value.toNat.testBit 7

/-- The bit that is delivered: bit 0. -/
def bit (d : Delivery) : Bool := d.value.toNat.testBit 0

/-- The register that the address chooses: bits 14 and 13. -/
def register (d : Delivery) : Register :=
  match d.address.toNat.testBit 14, d.address.toNat.testBit 13 with
  | false, false => .control
  | false, true => .chrBank0
  | true, false => .chrBank1
  | true, true => .prgBank

end Delivery

/-- The number that the bits of a group make: the `i`-th counts `2 ^ i`. -/
def groupValue (group : List Delivery) : Nat :=
  (group.mapIdx fun i d => d.bit.toNat * 2 ^ i).sum

/-- What a delivery can tell the registers to do. -/
inductive Command where
  | reset
  | store (r : Register) (value : Nat)
deriving DecidableEq, Repr

/-- Whether a command stores. -/
def Command.stores : Command → Bool
  | reset => false
  | store .. => true

/-- What the registers hold at power-on. -/
def powerOn : Register → Nat
  | .control => 12
  | _ => 0

/-- What the registers hold after a command. -/
def Command.apply (registers : Register → Nat) : Command → Register → Nat
  | reset => Function.update registers .control (registers .control ||| 12)
  | store r value => Function.update registers r value

/-- The deliveries after the last one that resets. -/
def sinceReset (ds : List Delivery) : List Delivery := ds.rtakeWhile fun d => !d.resets

/-- The deliveries that do not make a whole group yet. -/
def openGroup (ds : List Delivery) : List Delivery :=
  (sinceReset ds).drop (5 * ((sinceReset ds).length / 5))

/-- The command that the last delivery completes, if it completes one. -/
def command? (ds : List Delivery) : Option Command :=
  ds.getLast?.bind fun last =>
    if last.resets then some .reset
    else if (sinceReset ds).length % 5 = 0 then
      some (.store last.register (groupValue ((sinceReset ds).drop ((sinceReset ds).length - 5))))
    else none

/-- The commands of a list of deliveries, in order. -/
def commands (ds : List Delivery) : List Command := ds.inits.filterMap command?

/-- **What the registers hold** after a list of deliveries, all of which are heard. -/
def decode (ds : List Delivery) : Register → Nat := (commands ds).foldl Command.apply powerOn

/-- A moment in a history: something is delivered, or a cycle passes. -/
inductive Moment where
  | deliver (d : Delivery)
  | tick
deriving DecidableEq, Repr

/-- What has been heard in a history. -/
structure Hearing where
  /-- The deliveries that have been heard. -/
  heard : List Delivery := []
  /-- The cycles since a group was last completed, if one has been. -/
  sinceStore : Option Nat := none

namespace Hearing

/-- Whether a delivery would not be heard. -/
def deaf (h : Hearing) : Bool := h.sinceStore.any (· < 3)

/-- What has been heard a moment later. -/
def next (h : Hearing) : Moment → Hearing
  | .tick => { h with sinceStore := h.sinceStore.map (· + 1) }
  | .deliver d =>
    if h.deaf then h
    else
      let heard := h.heard ++ [d]
      let stored := (command? heard).any Command.stores
      { heard, sinceStore := if stored then some 0 else h.sinceStore }

/-- What is heard in a whole history. -/
def ofHistory (history : List Moment) : Hearing := history.foldl next {}

end Hearing

/-! ### One delivery more -/

variable {ds : List Delivery} {d : Delivery}

/-- A delivery that resets is the end of what came before, -/
theorem sinceReset_concat_of_resets (h : d.resets = true) : sinceReset (ds ++ [d]) = [] :=
  List.rtakeWhile_concat_neg _ _ _ (by simp [h])

/-- and any other is one more since the last reset. -/
theorem sinceReset_concat (h : d.resets = false) :
    sinceReset (ds ++ [d]) = sinceReset ds ++ [d] :=
  List.rtakeWhile_concat_pos _ _ _ (by simp [h])

/-- Every fifth delivery closes a group. -/
theorem length_openGroup (ds : List Delivery) :
    (openGroup ds).length = (sinceReset ds).length % 5 := by
  rw [openGroup, List.length_drop]
  omega

/-- A reset leaves no group open. -/
theorem openGroup_concat_of_resets (h : d.resets = true) : openGroup (ds ++ [d]) = [] := by
  rw [openGroup, sinceReset_concat_of_resets h, List.drop_nil]

/-- A delivery that completes no group enlarges the one that is open. -/
theorem openGroup_concat (h : d.resets = false) (hn : (openGroup ds).length < 4) :
    openGroup (ds ++ [d]) = openGroup ds ++ [d] := by
  rw [length_openGroup] at hn
  have hq : (sinceReset ds ++ [d]).length / 5 = (sinceReset ds).length / 5 := by
    rw [List.length_append, List.length_singleton]
    omega
  rw [openGroup, sinceReset_concat h, hq, List.drop_append_of_le_length (by omega)]
  rfl

/-- The fifth delivery of a group leaves none open. -/
theorem openGroup_concat_of_full (h : d.resets = false) (hn : (openGroup ds).length = 4) :
    openGroup (ds ++ [d]) = [] := by
  rw [length_openGroup] at hn
  rw [openGroup, sinceReset_concat h, List.drop_eq_nil_iff, List.length_append,
    List.length_singleton]
  omega

/-- It is a command of its own, -/
theorem command?_concat_of_resets (h : d.resets = true) :
    command? (ds ++ [d]) = some .reset := by
  rw [command?, List.getLast?_concat, Option.bind_some, if_pos h]

/-- while a delivery that closes no group commands nothing. -/
theorem command?_concat (h : d.resets = false) (hn : (openGroup ds).length < 4) :
    command? (ds ++ [d]) = none := by
  rw [length_openGroup] at hn
  have hm : ¬(sinceReset ds ++ [d]).length % 5 = 0 := by
    rw [List.length_append, List.length_singleton]
    omega
  rw [command?, List.getLast?_concat, Option.bind_some, h, if_neg Bool.false_ne_true,
    sinceReset_concat h, if_neg hm]

/-- The fifth delivery of a group stores its number. -/
theorem command?_concat_of_full (h : d.resets = false) (hn : (openGroup ds).length = 4) :
    command? (ds ++ [d]) = some (.store d.register (groupValue (openGroup ds ++ [d]))) := by
  rw [length_openGroup] at hn
  have hl : (sinceReset ds ++ [d]).length = (sinceReset ds).length + 1 := by
    rw [List.length_append, List.length_singleton]
  have hs : (sinceReset ds).length + 1 - 5 = 5 * ((sinceReset ds).length / 5) := by omega
  rw [command?, List.getLast?_concat, Option.bind_some, h, if_neg Bool.false_ne_true,
    sinceReset_concat h, hl, if_pos (by omega), hs,
    List.drop_append_of_le_length (by omega)]
  rfl

/-- A delivery adds at most one command to those before. -/
theorem commands_concat (ds : List Delivery) (d : Delivery) :
    commands (ds ++ [d]) = commands ds ++ (command? (ds ++ [d])).toList := by
  rw [commands, List.inits_append, List.filterMap_append, ← commands]
  cases h : command? (ds ++ [d]) <;> simp [h]

/-- Five deliveries make a number, the first of them its lowest bit. -/
example : decode ([1, 0, 1, 0, 0].map fun v => ⟨0x8000, v, by decide⟩) .control = 5 := by decide

/-- The registers after one delivery more: what its command leaves. -/
theorem decode_concat (ds : List Delivery) (d : Delivery) :
    decode (ds ++ [d]) = (command? (ds ++ [d])).toList.foldl Command.apply (decode ds) := by
  rw [decode, commands_concat, List.foldl_append, ← decode]

/-- What is delivered to a deaf board is not heard, -/
theorem Hearing.next_of_deaf {h : Hearing} (hh : h.deaf = true) (d : Delivery) :
    h.next (.deliver d) = h :=
  if_pos hh

/-- and anything else is. -/
theorem Hearing.next_deliver {h : Hearing} (hh : h.deaf = false) (d : Delivery) :
    h.next (.deliver d) =
      { heard := h.heard ++ [d]
        sinceStore :=
          if (command? (h.heard ++ [d])).any Command.stores then some 0 else h.sinceStore } :=
  if_neg (by rw [hh]; exact Bool.false_ne_true)

end Mmc1
end Famicom
