/-
# The page of the stack

The stack pointer goes round in a page of 256 bytes.  Seen from outside nothing of this remains, as
long as no more than 256 bytes are outstanding: every pull gives what was pushed last and has not
been pulled yet, from wherever the stack pointer started, and also where a word lies across the end
of the page (`Cpu.Run.pulls`).

What is required of the bus is that its page one is memory (`Cpu.StackMemory`).  Plain memory is
such a bus, and so is the address space of the machine.

| move | bytes outstanding | gives |
| --- | ---: | --- |
| push a byte | +1 | |
| push a word | +2 | |
| pull a byte | -1 | the byte on top |
| pull a word | -2 | the two bytes on top, the low one first |
-/

import Famicom.Proofs.Cpu.Return
import Famicom.Proofs.Memory.Access
import Mathlib.Algebra.Ring.Int.Defs

namespace Famicom
namespace Cpu

open Bus (Flat)

section Page

variable {β : Type} [Bus β]

/-- The byte in a cell of the stack. -/
def onStack (b : β) (s : UInt8) : UInt8 := (Bus.read b (stackCell s)).1

/-- Page one holds the same bytes. -/
def SameStack (b b' : β) : Prop := ∀ s, onStack b' s = onStack b s

end Page

/-- **Page one of a bus is memory**: a read of it changes nothing there, and a write changes the
one byte. -/
class StackMemory (β : Type) [Bus β] : Prop where
  sameStack_read (b : β) (s : UInt8) : SameStack b (Bus.read b (stackCell s)).2
  onStack_write (b : β) (s : UInt8) (v : UInt8) (t : UInt8) :
    onStack (Bus.write b (stackCell s) v) t = if s = t then v else onStack b t

instance : StackMemory Flat where
  sameStack_read _ _ _ := rfl
  onStack_write b s v t := by
    show (b.set (stackCell s) v).get (stackCell t) = _
    rw [Flat.get_set]
    simp only [stackCell_inj]
    rfl

/-! ### The stack of the machine -/

/-- The stack page is in the internal RAM, -/
theorem stackCell_lt (s : UInt8) : stackCell s < 0x2000 :=
  UInt16.lt_trans (Bus.lt_of_inStackPage (inStackPage_stackCell s)) (by decide)

/-- The page of the stack is the second page of memory. -/
theorem toNat_stackCell_mod (s : UInt8) : (stackCell s).toNat % 2048 = 256 + s.toNat := by
  have hs := s.toNat_lt
  rw [show stackCell s = Word.ofBytes s 1 from rfl, Word.toNat_ofBytes,
    show (1 : UInt8).toNat = 1 from rfl]
  omega

/-- a page above its start. -/
theorem onStack_memory (m : Memory) (s : UInt8) (h : 256 + s.toNat < 2048) :
    onStack m s = m.ram[256 + s.toNat] := by
  show (m.read (stackCell s)).1 = _
  unfold Memory.read
  rw [if_pos (stackCell_lt s)]
  simp only [toNat_stackCell_mod]

/-- No read of the machine changes memory. -/
theorem sameStack_memory_read (m : Memory) (address : UInt16) : SameStack m (m.read address).2 := by
  intro s
  have h : 256 + s.toNat < 2048 := Nat.lt_trans (Nat.add_lt_add_left s.toNat_lt 256) (by decide)
  rw [onStack_memory _ s h, onStack_memory _ s h]
  simp only [Memory.read_eq]

instance : StackMemory Memory where
  sameStack_read m s := sameStack_memory_read m (stackCell s)
  onStack_write m s v t := by
    have h : 256 + t.toNat < 2048 := Nat.lt_trans (Nat.add_lt_add_left t.toNat_lt 256) (by decide)
    rw [onStack_memory _ t h, onStack_memory _ t h]
    show (m.write (stackCell s) v).ram[256 + t.toNat] = _
    unfold Memory.write
    simp only [if_pos (stackCell_lt s), toNat_stackCell_mod, Vector.getElem_set, ← UInt8.toNat_inj,
      Nat.add_right_inj]

/-! ### A stack without bounds -/

/-- A use of the stack, with what goes through it. -/
inductive Move where
  | push (v : UInt8)
  | pushWord (w : UInt16)
  | pull (v : UInt8)
  | pullWord (w : UInt16)
deriving DecidableEq, Repr

/-- How many bytes a move adds to those that are outstanding. -/
def Move.growth : Move → Int
  | push _ => 1
  | pushWord _ => 2
  | pull _ => -1
  | pullWord _ => -2

/-- How many bytes are outstanding after some moves. -/
def outstanding (moves : List Move) : Int := (moves.map Move.growth).sum

/-- At no time less than no byte is outstanding, and at no time more than a page of them. -/
def Fits (moves : List Move) : Prop :=
  ∀ before, before <+: moves → 0 ≤ outstanding before ∧ outstanding before ≤ 256

/-- What a stack without bounds holds after a move, the top in front; nothing, if it would not give
what is pulled. -/
def Move.onList : List UInt8 → Move → Option (List UInt8)
  | held, push v => some (v :: held)
  | held, pushWord w => some (Word.low w :: Word.high w :: held)
  | u :: held, pull v => if u = v then some held else none
  | low :: high :: held, pullWord w => if Word.ofBytes low high = w then some held else none
  | _, _ => none

/-- What a stack without bounds holds after some moves, if it gives what is pulled in each of
them. -/
def held? (moves : List Move) : Option (List UInt8) := moves.foldlM Move.onList []

/-- What is outstanding grows move by move. -/
theorem outstanding_concat (moves : List Move) (m : Move) :
    outstanding (moves ++ [m]) = outstanding moves + m.growth := by
  simp [outstanding]

/-- A list that has given all that was pulled so far goes on with the next move. -/
theorem held?_concat {moves : List Move} {held : List UInt8} (h : held? moves = some held)
    (m : Move) : held? (moves ++ [m]) = m.onList held := by
  rw [held?] at h
  simp [held?, List.foldlM_append, h]

/-- What is pulled has to be what is on top, a word's low byte first. -/
example : held? [.push 3, .pushWord 0x0102, .pull 2] = some [1, 3] ∧
    held? [.push 3, .pull 4] = none ∧ held? [.pull 0] = none := by decide

/-- Before the first move nothing is outstanding. -/
theorem fits_nil : Fits [] := by
  intro before hb
  rw [List.prefix_nil.1 hb]
  decide

/-- Moves fit if all but the last do, and the last leaves between nothing and a page. -/
theorem fits_concat {moves : List Move} {m : Move} :
    Fits (moves ++ [m]) ↔
      Fits moves ∧ 0 ≤ outstanding moves + m.growth ∧ outstanding moves + m.growth ≤ 256 := by
  rw [← outstanding_concat]
  constructor
  · intro h
    exact ⟨fun before hb => h before (hb.trans (List.prefix_append _ _)), h _ (List.prefix_refl _)⟩
  · rintro ⟨h, hm⟩ before hb
    rcases List.prefix_concat_iff.1 hb with rfl | hb
    · exact hm
    · exact h before hb

/-! ### The stack in its page -/

variable {β : Type} [Bus β]

/-- Above the stack pointer lie the bytes that are held, the top first. -/
def Holds (b : β) : UInt8 → List UInt8 → Prop
  | _, [] => True
  | sp, v :: held => onStack b (sp + 1) = v ∧ Holds b (sp + 1) held

/-- What is held is read off page one alone. -/
theorem Holds.congr {b b' : β} {sp : UInt8} {held : List UInt8} (h : Holds b sp held)
    (hs : SameStack b b') : Holds b' sp held := by
  induction held generalizing sp with
  | nil => trivial
  | cons v held ih => exact ⟨(hs _).trans h.1, ih h.2⟩

variable [StackMemory β]

/-- A write beyond the bytes that are held leaves them alone: `t` is so many cells from the first
of them. -/
theorem Holds.write_of_le {b : β} {sp t : UInt8} {held : List UInt8} (h : Holds b sp held)
    (ht : held.length ≤ (t - (sp + 1)).toNat) (v : UInt8) :
    Holds (Bus.write b (stackCell t) v) sp held := by
  induction held generalizing sp with
  | nil => trivial
  | cons u held ih =>
    have hd := (t - (sp + 1)).toNat_lt
    have hn : t ≠ sp + 1 := by
      rintro rfl
      simp at ht
    have hs : (t - (sp + 1 + 1)).toNat = (t - (sp + 1)).toNat - 1 := by
      have he : t - (sp + 1 + 1) = t - (sp + 1) - 1 := by grind
      rw [List.length_cons] at ht
      rw [he, UInt8.toNat_sub, show (1 : UInt8).toNat = 1 from rfl]
      omega
    refine ⟨?_, ih h.2 ?_⟩
    · rw [StackMemory.onStack_write, if_neg hn]
      exact h.1
    · rw [List.length_cons] at ht
      omega

/-- **A push puts a byte on top**, if there is room for it in the page. -/
theorem Holds.push {r : Registers} {b : β} {held : List UInt8} (h : Holds b r.sp held)
    (room : held.length < 256) (v : UInt8) :
    Holds (push r b v).2 (push r b v).1.sp (v :: held) := by
  have hs : r.sp - 1 + 1 = r.sp := by grind
  have hd : (r.sp - (r.sp + 1)).toNat = 255 := by
    rw [show r.sp - (r.sp + 1) = 255 by grind]
    rfl
  show onStack (Bus.write b (stackCell r.sp) v) (r.sp - 1 + 1) = v ∧
    Holds (Bus.write b (stackCell r.sp) v) (r.sp - 1 + 1) held
  rw [hs]
  refine ⟨?_, h.write_of_le (by omega) v⟩
  rw [StackMemory.onStack_write, if_pos rfl]

/-- **A pull takes the byte on top.** -/
theorem Holds.pull {r : Registers} {b : β} {v : UInt8} {held : List UInt8}
    (h : Holds b r.sp (v :: held)) :
    (pull r b).1 = v ∧ Holds (pull r b).2.2 (pull r b).2.1.sp held :=
  ⟨h.1, h.2.congr (StackMemory.sameStack_read b _)⟩

/-- A word is pushed with its high byte first, so that the low one is on top, -/
theorem Holds.pushWord {r : Registers} {b : β} {held : List UInt8} (h : Holds b r.sp held)
    (room : held.length < 255) (w : UInt16) :
    Holds (pushWord r b w).2 (pushWord r b w).1.sp (Word.low w :: Word.high w :: held) :=
  (h.push (Nat.lt_succ_of_lt room) (Word.high w)).push (Nat.succ_lt_succ room) (Word.low w)

/-- and it comes back whole. -/
theorem Holds.pullWord {r : Registers} {b : β} {low high : UInt8} {held : List UInt8}
    (h : Holds b r.sp (low :: high :: held)) :
    (pullWord r b).1 = Word.ofBytes low high ∧
      Holds (pullWord r b).2.2 (pullWord r b).2.1.sp held := by
  obtain ⟨hl, h₁⟩ := h.pull
  obtain ⟨hh, h₂⟩ := h₁.pull
  refine ⟨?_, h₂⟩
  rw [← hl, ← hh]
  rfl

/-- The stack is used, from `r` and `b` on.  In between whatever may happen that neither moves the
stack pointer nor writes page one. -/
inductive Run (r : Registers) (b : β) : List Move → Registers → β → Prop where
  | start : Run r b [] r b
  | push {moves : List Move} {r' : Registers} {b' : β} (h : Run r b moves r' b') (v : UInt8) :
      Run r b (moves ++ [.push v]) (push r' b' v).1 (push r' b' v).2
  | pushWord {moves : List Move} {r' : Registers} {b' : β} (h : Run r b moves r' b') (w : UInt16) :
      Run r b (moves ++ [.pushWord w]) (pushWord r' b' w).1 (pushWord r' b' w).2
  | pull {moves : List Move} {r' : Registers} {b' : β} (h : Run r b moves r' b') :
      Run r b (moves ++ [.pull (pull r' b').1]) (pull r' b').2.1 (pull r' b').2.2
  | pullWord {moves : List Move} {r' : Registers} {b' : β} (h : Run r b moves r' b') :
      Run r b (moves ++ [.pullWord (pullWord r' b').1]) (pullWord r' b').2.1 (pullWord r' b').2.2
  | elsewhere {moves : List Move} {r' r'' : Registers} {b' b'' : β} (h : Run r b moves r' b')
      (hr : r''.sp = r'.sp) (hb : SameStack b' b'') : Run r b moves r'' b''

/-- The stack pointer is where it started less `n`, modulo 256. -/
def Below (start sp : UInt8) (n : Int) : Prop := (sp.toNat : Int) = ((start.toNat : Int) - n) % 256

/-- At the start nothing lies between. -/
theorem below_zero (start : UInt8) : Below start start 0 := by
  have := start.toNat_lt
  rw [Below]
  omega

/-- Bytes that are pushed lower the pointer, -/
theorem Below.sub {start sp : UInt8} {n : Int} (h : Below start sp n) (k : UInt8) :
    Below start (sp - k) (n + k.toNat) := by
  have := sp.toNat_lt
  have := k.toNat_lt
  rw [Below] at *
  rw [UInt8.toNat_sub]
  omega

/-- and bytes that are pulled raise it. -/
theorem Below.add {start sp : UInt8} {n : Int} (h : Below start sp n) (k : UInt8) :
    Below start (sp + k) (n - k.toNat) := by
  have := sp.toNat_lt
  have := k.toNat_lt
  rw [Below] at *
  rw [UInt8.toNat_add]
  omega

/-- **The stack in its page is a stack**: as long as no more than a page is outstanding, a stack
without bounds gives the same, and the bytes that it holds are those above the stack pointer. -/
theorem Run.pulls {r r' : Registers} {b b' : β} {moves : List Move} (run : Run r b moves r' b')
    (fits : Fits moves) :
    ∃ held, held? moves = some held ∧ (held.length : Int) = outstanding moves ∧
      Holds b' r'.sp held ∧ Below r.sp r'.sp (outstanding moves) := by
  -- the induction is on the run, with the list of what is held as its invariant
  induction run with
  | start => exact ⟨[], rfl, rfl, trivial, below_zero _⟩
  | elsewhere _ hr hb ih =>
    obtain ⟨held, hh, hl, hs, hp⟩ := ih fits
    rw [hr]
    exact ⟨held, hh, hl, hs.congr hb, hp⟩
  | push _ v ih =>
    obtain ⟨fits, -, room⟩ := fits_concat.1 fits
    obtain ⟨held, hh, hl, hs, hp⟩ := ih fits
    rw [Move.growth] at room
    rw [held?_concat hh, outstanding_concat]
    refine ⟨v :: held, rfl, ?_, hs.push (by omega) v, hp.sub 1⟩
    rw [List.length_cons, Move.growth]
    omega
  | pushWord _ w ih =>
    obtain ⟨fits, -, room⟩ := fits_concat.1 fits
    obtain ⟨held, hh, hl, hs, hp⟩ := ih fits
    rw [Move.growth] at room
    rw [held?_concat hh, outstanding_concat]
    refine ⟨Word.low w :: Word.high w :: held, rfl, ?_, hs.pushWord (by omega) w, ?_⟩
    · rw [List.length_cons, List.length_cons, Move.growth]
      omega
    · rw [Move.growth, show (2 : Int) = 1 + 1 from rfl, ← Int.add_assoc]
      exact (hp.sub 1).sub 1
  | pull _ ih =>
    obtain ⟨fits, enough, -⟩ := fits_concat.1 fits
    obtain ⟨held, hh, hl, hs, hp⟩ := ih fits
    rw [Move.growth] at enough
    -- something is held, for no more is pulled than was pushed
    obtain _ | ⟨v, held⟩ := held
    · simp only [List.length_nil] at hl
      omega
    obtain ⟨hv, hs⟩ := hs.pull
    rw [held?_concat hh, outstanding_concat, hv, Move.onList, if_pos rfl]
    refine ⟨held, rfl, ?_, hs, hp.add 1⟩
    rw [List.length_cons] at hl
    rw [Move.growth]
    omega
  | pullWord _ ih =>
    obtain ⟨fits, enough, -⟩ := fits_concat.1 fits
    obtain ⟨held, hh, hl, hs, hp⟩ := ih fits
    rw [Move.growth] at enough
    -- at least two bytes are held, for no more is pulled than was pushed
    obtain _ | ⟨low, _ | ⟨high, held⟩⟩ := held
    · simp only [List.length_nil] at hl
      omega
    · simp only [List.length_cons, List.length_nil] at hl
      omega
    obtain ⟨hw, hs⟩ := hs.pullWord
    rw [held?_concat hh, outstanding_concat, hw, Move.onList, if_pos rfl]
    refine ⟨held, rfl, ?_, hs, ?_⟩
    · rw [List.length_cons, List.length_cons] at hl
      rw [Move.growth]
      omega
    · rw [Move.growth, show (-2 : Int) = -1 + -1 from rfl, ← Int.add_assoc]
      exact (hp.add 1).add 1

end Cpu
end Famicom
