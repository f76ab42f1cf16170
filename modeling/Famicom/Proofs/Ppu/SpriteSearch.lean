/-
# The search for sprites

In the first dot of a visible line the object memory is gone through in order, for as long as there
is room.  What is found are the first eight of the sprites that the line crosses, and whether there
is one too many is known as soon as a ninth has been met: so the search, which leaves off there,
finds what a search to the end would find (`Ppu.collect_eq`, `Ppu.evaluate_eq`).

`Ppu.sprite_search` says so of the dot.  The sprites are numbered by their places in the object
memory, and a sprite has four bytes there (`Ppu.spriteByte`).
-/

import Famicom.Proofs.Bits
import Famicom.Proofs.Board.Blank
import Famicom.Proofs.Ppu.WellFormed
import Mathlib.Data.List.Sort

namespace Famicom

/-- A bit that is raised with a mask. -/
theorem or_and_mask_ne_zero (v raised mask : UInt8) {i : Nat} (h : mask.toNat = 2 ^ i) :
    ((v ||| raised) &&& mask != 0) = ((v &&& mask != 0) || raised.toNat.testBit i) := by
  rw [and_mask_ne_zero _ mask h, and_mask_ne_zero _ mask h, UInt8.toNat_or, Nat.testBit_or]

namespace Ppu

namespace Status

/-- The overflow flag is up once it has been raised. -/
theorem spriteOverflow_setSpriteOverflow (s : Status) : s.setSpriteOverflow.spriteOverflow = true :=
  (or_and_mask_ne_zero s.bits 0x20 0x20 (show _ = 2 ^ 5 from rfl)).trans (Bool.or_true _)

/-- Raising the overflow flag leaves the hit of sprite zero. -/
theorem spriteZeroHit_setSpriteOverflow (s : Status) :
    s.setSpriteOverflow.spriteZeroHit = s.spriteZeroHit :=
  (or_and_mask_ne_zero s.bits 0x20 0x40 (show _ = 2 ^ 6 from rfl)).trans (Bool.or_false _)

/-- The hit of sprite zero is up once it has been raised. -/
theorem spriteZeroHit_setSpriteZeroHit (s : Status) : s.setSpriteZeroHit.spriteZeroHit = true :=
  (or_and_mask_ne_zero s.bits 0x40 0x40 (show _ = 2 ^ 6 from rfl)).trans (Bool.or_true _)

end Status

/-! ### The object memory -/

/-- Byte `k` of sprite `i` in the object memory. -/
def spriteByte (p : Ppu) (i k : Nat) : UInt8 := p.oam[4 * i + k]!

/-- The line that is drawn crosses sprite `i`: it is one of as many lines as the sprite is high,
from the one below the line that the sprite names. -/
def Crosses (p : Ppu) (i : Nat) : Prop :=
  i < 64 ∧ (p.spriteByte i 0).toNat + 1 ≤ p.raster.line ∧
    p.raster.line < (p.spriteByte i 0).toNat + 1 + p.control.spriteHeight

instance (p : Ppu) (i : Nat) : Decidable (p.Crosses i) := by
  unfold Crosses
  infer_instance

/-- The sprites that the line crosses, in order. -/
def crossing (p : Ppu) : List Nat := (List.range 64).filter (p.Crosses ·)

/-- Sprite `i` as it stands in the object memory. -/
def spriteAt (p : Ppu) (i : Nat) : Sprite :=
  ⟨p.spriteByte i 0, p.spriteByte i 1, p.spriteByte i 2, p.spriteByte i 3⟩

/-- A sprite is four bytes of the object memory, as `spriteAt` has them. -/
theorem ofOam_eq (p : Ppu) {i : Nat} (h : i < 64) : Sprite.ofOam p.oam i = p.spriteAt i := by
  have get {j : Nat} (hj : j < 256) : p.oam[j]! = p.oam[j] := getElem!_pos p.oam j hj
  simp only [Sprite.ofOam, spriteAt, spriteByte, Nat.mod_eq_of_lt h, Nat.mul_comm i 4]
  rw [get (by omega), get (by omega), get (by omega), get (by omega)]
  rfl

/-- What the search asks of a sprite is whether it crosses the line. -/
theorem crosses_iff (p : Ppu) {i : Nat} (h : i < 64) :
    (Sprite.ofOam p.oam i).crosses p.control.spriteHeight p.raster.line = true ↔ p.Crosses i := by
  rw [ofOam_eq p h, Sprite.crosses, Bool.and_eq_true, decide_eq_true_eq, decide_eq_true_eq]
  exact (and_iff_right h).symm

/-- The sprites that cross a line come in the order of their numbers. -/
theorem pairwise_crossing (p : Ppu) : p.crossing.Pairwise (· < ·) := List.pairwise_lt_range.filter _

/-- They are all those of the 64 that cross it. -/
theorem mem_crossing {p : Ppu} {i : Nat} : i ∈ p.crossing ↔ p.Crosses i := by
  rw [crossing, List.mem_filter, List.mem_range, decide_eq_true_eq]
  exact and_iff_right_of_imp And.left

/-- The sprites that the line crosses have one order. -/
theorem eq_crossing {p : Ppu} {is : List Nat} (hs : is.Pairwise (· < ·))
    (h : ∀ i, i ∈ is ↔ p.Crosses i) : is = p.crossing := by
  have hn {l : List Nat} (hl : l.Pairwise (· < ·)) : l.Nodup := hl.imp Nat.ne_of_lt
  refine List.Perm.eq_of_pairwise' hs p.pairwise_crossing ?_
  exact (List.perm_ext_iff_of_nodup (hn hs) (hn p.pairwise_crossing)).2 fun i =>
    (h i).trans mem_crossing.symm

/-! ### The search -/

/-- What has been found when the object memory has been gone through. -/
theorem evaluate_eq (p : Ppu) :
    evaluate p.oam p.control.spriteHeight p.raster.line =
      { sprites := (p.crossing.take spritesPerLine).map p.spriteAt
        height := p.control.spriteHeight
        zero := (p.crossing.take spritesPerLine).contains 0
        overflow := spritesPerLine < p.crossing.length } := by
  have hf : ((List.range 64).filter fun i =>
      (Sprite.ofOam p.oam i).crosses p.control.spriteHeight p.raster.line) = p.crossing := by
    refine List.filter_congr fun i hi => ?_
    rw [Bool.eq_iff_iff, crosses_iff p (List.mem_range.1 hi), decide_eq_true_eq]
  have hm : (p.crossing.take spritesPerLine).map (Sprite.ofOam p.oam) =
      (p.crossing.take spritesPerLine).map p.spriteAt :=
    List.map_congr_left fun i hi => ofOam_eq p (mem_crossing.1 (List.mem_of_mem_take hi)).1
  rw [evaluate, collect_eq, hf]
  dsimp only
  rw [hm]

/-- If zero is among numbers in order, it is the first of them. -/
theorem exists_cons_of_zero_mem {is : List Nat} (h : is.Pairwise (· < ·)) (h₀ : 0 ∈ is) :
    ∃ rest, is = 0 :: rest := by
  cases is with
  | nil => cases h₀
  | cons i is =>
    obtain rfl | hi := List.mem_cons.1 h₀
    · exact ⟨is, rfl⟩
    · exact absurd (List.rel_of_pairwise_cons h hi) (Nat.not_lt_zero i)

/-- In an increasing list zero can only be the first. -/
theorem contains_zero_take {is : List Nat} (h : is.Pairwise (· < ·)) (n : Nat) :
    (is.take (n + 1)).contains 0 = true ↔ is.head? = some 0 := by
  rw [List.contains_iff_mem]
  constructor
  · intro hz
    obtain ⟨rest, rfl⟩ := exists_cons_of_zero_mem h (List.mem_of_mem_take hz)
    rfl
  · intro hz
    obtain ⟨rest, rfl⟩ := List.head?_eq_some_iff.1 hz
    exact List.mem_cons_self

/-! ### The dot of the search -/

/-- The fetches of the background leave the status. -/
theorem status_backgroundDot (p : Ppu) (board : Board) :
    (p.backgroundDot board).status = p.status := by
  rw [backgroundDot_eq]
  rfl

/-- The status changes in the fetches of dot 1 alone, by the search. -/
theorem status_fetched (p : Ppu) (board : Board) :
    (p.fetched board).status = if p.raster.dot = 1 then p.evaluateSprites.status else p.status := by
  unfold fetched
  split
  · dsimp only
    split
    · exact status_backgroundDot _ board
    · rfl
  · dsimp only
    split
    · exact status_backgroundDot p board
    · rfl

/-- **The flags of a visible line** change when its sprites are looked for, and no more until they
are drawn. -/
theorem status_tick {p : Ppu} (hl : p.raster.line < visibleLines) (hd : p.raster.dot ≠ 256)
    (board : Board) :
    (p.tick board).status = if p.raster.dot = 1 then p.evaluateSprites.status else p.status := by
  rw [← status_fetched p board]
  show (p.draw board).status = _
  rw [draw, if_pos hl]
  by_cases h : 1 ≤ p.raster.dot ∧ p.raster.dot ≤ 256
  · rw [visibleDot_of_lt h.1 (Nat.lt_of_le_of_ne h.2 hd)]
    rfl
  · rw [visibleDot_of_not h]

/-- What a search has found of the sprites `is`, the state before it being `p`. -/
structure Found (p : Ppu) (is : List Nat) (q : Ppu) : Prop where
  count : q.lineSprites.sprites.length = min 8 is.length
  /-- The places are filled in order. -/
  copy : ∀ j i, j < 8 → is[j]? = some i → q.lineSprites.sprites[j]? = some (p.spriteAt i)
  height : q.lineSprites.height = p.control.spriteHeight
  zero : q.lineSprites.zero = true ↔ is.head? = some 0
  /-- The flag stays up, and it goes up for the ninth. -/
  overflow : q.status.spriteOverflow = true ↔ p.status.spriteOverflow = true ∨ 9 ≤ is.length

/-- **The search for sprites.**  Whatever is in the object memory: the first dot of a visible line,
something being rendered, finds the first eight of the sprites that the line crosses. -/
theorem sprite_search (p : Ppu) (board : Board) (hl : p.raster.line < 240) (hd : p.raster.dot = 1)
    (hr : p.mask.rendering = true) {is : List Nat} (hs : is.Pairwise (· < ·))
    (h : ∀ i, i ∈ is ↔ p.Crosses i) : p.Found is (p.tick board) := by
  obtain rfl := eq_crossing hs h
  have hsprites := lineSprites_tick p board
  have hstatus := status_tick hl (by omega) board
  rw [if_pos ⟨hl, hd⟩, evaluateSprites, if_pos hr, evaluate_eq] at hsprites
  rw [if_pos hd, evaluateSprites, if_pos hr, evaluate_eq] at hstatus
  dsimp only at hsprites hstatus
  -- what the sprites of the line and the status have become, field by field
  constructor
  case count => simp [hsprites, spritesPerLine]
  case copy =>
    intro j i hj hi
    rw [hsprites, List.getElem?_map, List.getElem?_take_of_lt (show j < spritesPerLine from hj), hi]
    rfl
  case height => rw [hsprites]
  case zero =>
    rw [hsprites]
    exact contains_zero_take hs 7
  case overflow =>
    rw [hstatus]
    by_cases hn : spritesPerLine < p.crossing.length
    · rw [decide_eq_true hn, if_pos rfl, Status.spriteOverflow_setSpriteOverflow]
      exact iff_of_true rfl (.inr hn)
    · rw [decide_eq_false hn, if_neg Bool.false_ne_true]
      exact (or_iff_left hn).symm

/-- Three sprites of which the line crosses the first and the last. -/
theorem sprite_search_two :
    let p : Ppu := {
      oam := (((Vector.replicate 256 0xFF).set 0 19).set 4 20).set 8 12
      mask := ⟨0x10⟩
      raster := { line := 20, dot := 1 } }
    p.crossing = [0, 2] ∧ p.Found [0, 2] (p.tick .blank) := by
  intro p
  have h : p.crossing = [0, 2] := by decide +kernel
  refine ⟨h, sprite_search p .blank (by decide) rfl (by decide) (by decide) fun i => ?_⟩
  rw [← h]
  exact mem_crossing

end Ppu
end Famicom
