/-
# Sprites over the background

What a line of the screen shows in a column can be said without strips and without an order of
drawing (`Ppu.Composited`): of the first eight sprites that cross the line (`Ppu.shown`), the
lowest-numbered that has a pixel there is before or behind the background.  Its pixel is one of a
tile (`tilePixel`), which the sprite may show from right to left and upside down, and of two tiles
if sprites are tall (`Ppu.spritePixel`).

The program lays eight-pixel strips over the line when its last dot is drawn.  Each strip has the
pixels of its sprite (`Ppu.toNat_pattern_stripAt`), the first strip in the list that has a pixel is
the one of the sprite that wins (`Ppu.find?_stripAt`), and so the lines agree: `Ppu.compositing`.
-/

import Famicom.Proofs.Ppu.QuietLine

namespace Famicom

/-- A bit of a byte, moved to the lowest place. -/
theorem toNat_shiftRight_and_one (v : UInt8) {k : Nat} (h : k < 8) :
    (v >>> UInt8.ofNat k &&& 1).toNat = (v.toNat.testBit k).toNat := by
  have hk : (UInt8.ofNat k).toNat % 8 = k := by
    rw [UInt8.toNat_ofNat']
    omega
  rw [UInt8.toNat_and, UInt8.toNat_shiftRight, hk, Nat.toNat_testBit, Nat.shiftRight_eq_div_pow]
  exact Nat.and_one_is_mod _

/-- The lower two bits of a byte are its remainder by four. -/
theorem toNat_and_three (v : UInt8) : (v &&& 3).toNat = v.toNat % 4 := by
  rw [UInt8.toNat_and]
  exact Nat.and_two_pow_sub_one_eq_mod v.toNat 2

namespace Ppu

/-! ### What a line shows -/

/-- The pixel of a tile, counted from the upper left, between 0 and 3.  A tile has two planes of
eight bytes, a byte for each row, and the highest bit is on the left. -/
def tilePixel (b : Board) (table tile row column : Nat) : Nat :=
  let bit (plane : Nat) :=
    (b.readPpu (table + tile * 16 + row + 8 * plane)).toNat.testBit (7 - column)
  (bit 0).toNat + 2 * (bit 1).toNat

/-- The pixel that a sprite has in column `x` of the line, zero where it has none. -/
def spritePixel (p : Ppu) (b : Board) (i x : Nat) : Nat :=
  let s := p.spriteAt i
  if s.x.toNat ≤ x ∧ x < s.x.toNat + 8 then
    let across := x - s.x.toNat
    let down := p.raster.line - (s.y.toNat + 1)
    let column := if s.attributes.toNat.testBit 6 then 7 - across else across
    let row := if s.attributes.toNat.testBit 7 then p.control.spriteHeight - 1 - down else down
    if p.control.tallSprites then
      tilePixel b (s.tile.toNat % 2 * 0x1000) (s.tile.toNat / 2 * 2 + row / 8) (row % 8) column
    else tilePixel b p.control.spriteTable s.tile.toNat row column
  else 0

/-- The sprites that the line can show. -/
def shown (p : Ppu) : List Nat := p.crossing.take spritesPerLine

/-- The sprites of a line are in the order of their numbers, so the first that has a pixel is the
lowest. -/
theorem pairwise_shown (p : Ppu) : p.shown.Pairwise (· < ·) := p.pairwise_crossing.take

/-- Sprites are shown in column `x`. -/
def Unclipped (p : Ppu) (x : Nat) : Prop := p.mask.spritesLeft = true ∨ 8 ≤ x

/-- Of the sprites that have a pixel in column `x`, sprite `i` is the first. -/
structure Wins (p : Ppu) (b : Board) (x i : Nat) : Prop where
  shown : i ∈ p.shown
  visible : p.spritePixel b i x ≠ 0
  first : ∀ j ∈ p.shown, j < i → p.spritePixel b j x = 0

/-- The background has a pixel in column `x`. -/
def BackgroundOpaque (p : Ppu) (b : Board) (x : Nat) : Prop := (p.backgroundAt b x).toNat % 4 ≠ 0

/-- **A line with its sprites**: `q` has drawn the line that begins with `p`. -/
structure Composited (p : Ppu) (b : Board) (q : Ppu) : Prop where
  /-- Where sprites are clipped there is background. -/
  clipped : ∀ x (h : x < 256), ¬p.Unclipped x → q.line[x] = p.backgroundAt b x
  /-- Where no sprite has a pixel, too. -/
  transparent : ∀ x (h : x < 256), (∀ i ∈ p.shown, p.spritePixel b i x = 0) →
    q.line[x] = p.backgroundAt b x
  /-- Where the first sprite that has one lies behind a pixel of the background, too. -/
  behind : ∀ x (h : x < 256) i, p.Wins b x i → (p.spriteAt i).attributes.toNat.testBit 5 = true →
    p.BackgroundOpaque b x → q.line[x] = p.backgroundAt b x
  /-- Else there is the pixel of the sprite, in its palette. -/
  front : ∀ x (h : x < 256) i, p.Unclipped x → p.Wins b x i →
    ¬((p.spriteAt i).attributes.toNat.testBit 5 = true ∧ p.BackgroundOpaque b x) →
    q.line[x].toNat = 0x10 ||| (p.spriteAt i).attributes.toNat % 4 * 4 ||| p.spritePixel b i x
  /-- The flag goes up where sprite 0 and the background have a pixel, but for the last column. -/
  hit : q.status.spriteZeroHit = true ↔ p.status.spriteZeroHit = true ∨
    ∃ x ≤ 254, p.Unclipped x ∧ 0 ∈ p.shown ∧ p.spritePixel b 0 x ≠ 0 ∧ p.BackgroundOpaque b x

/-! ### Strips -/

section Strips

variable (p : Ppu) (b : Board)

/-- The strip of sprite `i`. -/
def stripAt (i : Nat) : Strip :=
  (p.spriteAt i).strip b p.control.spriteHeight p.control.spriteTable p.raster.line

/-- Sprites are sixteen rows high exactly if the processor has asked for tall ones. -/
theorem Control.spriteHeight_eq_sixteen (c : Control) :
    c.spriteHeight = 16 ↔ c.tallSprites = true := by
  unfold spriteHeight
  split <;> simp [*]

/-- Flipped from left to right, a strip is read from its lowest bit on. -/
theorem Strip.toNat_pattern (s : Strip) {x column : Nat} (h : s.x ≤ x ∧ x < s.x + 8)
    (hc : column = if s.attributes.toNat.testBit 6 then 7 - (x - s.x) else x - s.x) :
    (s.pattern x).toNat =
      (s.low.toNat.testBit (7 - column)).toNat + 2 * (s.high.toNat.testBit (7 - column)).toNat := by
  have hplace : (if s.attributes &&& 0x40 != 0 then x - s.x else 7 - (x - s.x)) = 7 - column := by
    rw [and_mask_ne_zero _ 0x40 (show _ = 2 ^ 6 from rfl), hc]
    split <;> omega
  have hl := Bool.toNat_le (s.low.toNat.testBit (7 - column))
  have hh := Bool.toNat_le (s.high.toNat.testBit (7 - column))
  rw [pattern, if_pos h]
  dsimp only
  rw [hplace, UInt8.toNat_add, UInt8.toNat_mul, toNat_shiftRight_and_one _ (by omega),
    toNat_shiftRight_and_one _ (by omega)]
  show (_ + 2 * _ % 256) % 256 = _
  omega

/-- Flipped from top to bottom, a sprite shows its rows the other way round. -/
theorem Sprite.patternRow_eq (s : Sprite) (height line : Nat) :
    s.patternRow height line =
      if s.attributes.toNat.testBit 7 then height - 1 - (line - (s.y.toNat + 1))
      else line - (s.y.toNat + 1) := by
  rw [patternRow, and_mask_ne_zero _ 0x80 (show _ = 2 ^ 7 from rfl)]
  rfl

/-- **A strip has the pixels of its sprite.** -/
theorem toNat_pattern_stripAt (i x : Nat) :
    ((p.stripAt b i).pattern x).toNat = p.spritePixel b i x := by
  unfold spritePixel
  dsimp only
  by_cases hx : (p.spriteAt i).x.toNat ≤ x ∧ x < (p.spriteAt i).x.toNat + 8
  · rw [if_pos hx, Strip.toNat_pattern (p.stripAt b i) hx rfl, ← Sprite.patternRow_eq]
    by_cases ht : p.control.tallSprites = true
    · have ha : (p.spriteAt i).patternAddress p.control.spriteHeight p.control.spriteTable
          ((p.spriteAt i).patternRow p.control.spriteHeight p.raster.line) = _ :=
        if_pos (p.control.spriteHeight_eq_sixteen.2 ht)
      rw [if_pos ht]
      simp only [stripAt, Sprite.strip, tilePixel, ha, Nat.mul_zero, Nat.add_zero, Nat.mul_one]
    · have ha : (p.spriteAt i).patternAddress p.control.spriteHeight p.control.spriteTable
          ((p.spriteAt i).patternRow p.control.spriteHeight p.raster.line) = _ :=
        if_neg (mt p.control.spriteHeight_eq_sixteen.1 ht)
      rw [if_neg ht]
      simp only [stripAt, Sprite.strip, tilePixel, ha, Nat.mul_zero, Nat.add_zero, Nat.mul_one]
  · rw [if_neg hx, Strip.pattern]
    exact congrArg UInt8.toNat (if_neg hx)

/-- A strip is opaque where its sprite has a pixel that is not zero. -/
theorem opaqueAt_stripAt (i x : Nat) :
    (p.stripAt b i).opaqueAt x = true ↔ p.spritePixel b i x ≠ 0 := by
  rw [← toNat_pattern_stripAt, Strip.opaqueAt, bne_iff_ne, ← UInt8.toNat_inj.ne]
  rfl

/-- The colour of a strip: the upper half of the palette, the two bits of the attributes, the two
bits of the pattern. -/
theorem toNat_colour_stripAt (i x : Nat) :
    ((p.stripAt b i).colour x).toNat =
      0x10 ||| (p.spriteAt i).attributes.toNat % 4 * 4 ||| p.spritePixel b i x := by
  have ha : ((p.spriteAt i).attributes &&& 3).toNat = _ := toNat_and_three _
  have hm :
      (((p.spriteAt i).attributes &&& 3) * 4).toNat = (p.spriteAt i).attributes.toNat % 4 * 4 := by
    rw [UInt8.toNat_mul, ha]
    show _ * 4 % 256 = _
    omega
  rw [Strip.colour, UInt8.toNat_or, UInt8.toNat_or, toNat_pattern_stripAt]
  exact congrArg (0x10 ||| · ||| _) hm

/-- **The first strip that has a pixel is the one of the sprite that wins.** -/
theorem find?_stripAt {x i : Nat} (h : p.Wins b x i) :
    (p.shown.map (p.stripAt b)).find? (·.opaqueAt x) = some (p.stripAt b i) := by
  have hs := p.pairwise_shown
  have hfind : p.shown.find? (fun j => (p.stripAt b j).opaqueAt x) = some i := by
    obtain ⟨before, after, hl⟩ := List.append_of_mem h.shown
    refine List.find?_eq_some_iff_append.2
      ⟨(p.opaqueAt_stripAt b i x).2 h.visible, before, after, hl, ?_⟩
    intro j hj
    rw [hl] at hs
    have hlt : j < i := (List.pairwise_append.1 hs).2.2 j hj i List.mem_cons_self
    have hz := h.first j (by rw [hl]; exact List.mem_append_left _ hj) hlt
    rw [Bool.not_eq_true', ← Bool.not_eq_true, opaqueAt_stripAt]
    exact not_not_intro hz
  rw [List.find?_map]
  exact congrArg (Option.map (p.stripAt b)) hfind

/-- Where no sprite has a pixel, no strip is found. -/
theorem find?_stripAt_eq_none {x : Nat} (h : ∀ i ∈ p.shown, p.spritePixel b i x = 0) :
    (p.shown.map (p.stripAt b)).find? (·.opaqueAt x) = none := by
  rw [List.find?_map, Option.map_eq_none_iff, List.find?_eq_none]
  intro i hi
  rw [Function.comp_apply, opaqueAt_stripAt]
  exact not_not_intro (h i hi)

end Strips

/-! ### The line -/

/-- The overlay of a line is the overlay of each of its columns. -/
theorem getElem_overlay (strips : List Strip) (showLeft : Bool) (pixels : Vector UInt8 256)
    {x : Nat} (h : x < 256) :
    (overlay strips showLeft pixels)[x] = overlayPixel strips showLeft x pixels[x] := by
  cases strips with
  | nil =>
    show pixels[x] = _
    unfold overlayPixel
    split <;> rfl
  | cons s strips => exact Vector.getElem_mapIdx ..

/-- The background is opaque where its two bits of pattern are not both zero. -/
theorem backgroundOpaque_iff (pixel : UInt8) :
    backgroundOpaque pixel = true ↔ pixel.toNat % 4 ≠ 0 := by
  rw [← toNat_and_three, backgroundOpaque, bne_iff_ne, ← UInt8.toNat_inj.ne]
  rfl

/-- A sprite is behind the background if bit 5 of its attributes is set. -/
theorem behind_iff (attributes : UInt8) :
    Sprite.behind attributes = true ↔ attributes.toNat.testBit 5 = true := by
  rw [Sprite.behind, and_mask_ne_zero _ 0x20 (show _ = 2 ^ 5 from rfl)]

/-- Sprites are clipped in the eight leftmost columns unless the mask shows them there. -/
theorem unclipped_iff (p : Ppu) (x : Nat) :
    unclipped p.mask.spritesLeft x = true ↔ p.Unclipped x := by
  rw [unclipped, Bool.or_eq_true, decide_eq_true_eq]
  rfl

/-- A strip has pixels in its eight columns only. -/
theorem Strip.covers_of_opaqueAt {s : Strip} {x : Nat} (h : s.opaqueAt x = true) :
    s.x ≤ x ∧ x < s.x + 8 := by
  by_contra hx
  rw [opaqueAt, pattern, if_neg hx] at h
  cases h

/-- A strip meets the background where both have a pixel: beyond the strip there is nothing to look
for. -/
theorem meetsBackground_iff (s : Strip) (showLeft : Bool) (pixels : Vector UInt8 256) :
    meetsBackground s showLeft pixels = true ↔ ∃ x, ∃ h : x < 255, unclipped showLeft x = true ∧
      s.opaqueAt x = true ∧ backgroundOpaque pixels[x] = true := by
  rw [meetsBackground, List.any_eq_true]
  constructor
  · rintro ⟨column, -, h⟩
    dsimp only at h
    split at h
    · next hx =>
      rw [Bool.and_eq_true, Bool.and_eq_true, and_assoc] at h
      exact ⟨_, hx, h⟩
    · cases h
  · rintro ⟨x, hx, hu, ho, hb⟩
    obtain ⟨hlow, hhigh⟩ := Strip.covers_of_opaqueAt ho
    have hcolumn : s.x + (x - s.x) = x := Nat.add_sub_cancel' hlow
    refine ⟨x - s.x, List.mem_range.2 (by omega), ?_⟩
    simp only [hcolumn]
    rw [dif_pos hx, hu, ho, hb]
    rfl

/-! ### The last dot -/

/-- Showing a line leaves the status. -/
theorem status_showLine (p : Ppu) : p.showLine.status = p.status := by
  unfold showLine
  split <;> rfl

/-- **The flag that the last visible dot leaves**: it goes up if sprite 0 meets the background. -/
theorem spriteZeroHit_tick_last {p : Ppu} (hl : p.raster.line < visibleLines)
    (hd : p.raster.dot = 256) (hm : p.mask.sprites = true) (board : Board) :
    (p.tick board).status.spriteZeroHit = true ↔ p.status.spriteZeroHit = true ∨
      { p with
        line := p.line.set 255 ((p.tick board).fetch.pixel p.standing 255) (by decide)
      }.hitsSpriteZero (p.strips board) = true := by
  have h : 1 ≤ p.raster.dot ∧ p.raster.dot ≤ 256 := by omega
  have hd₁ : p.raster.dot ≠ 1 := by omega
  have hline := line_plotted hl board h
  have hmask : (p.plotted board (column_lt h)).mask = p.mask :=
    congrArg Standing.mask (standing_fetched p board)
  have hsprites : (p.plotted board (column_lt h)).lineSprites = p.lineSprites :=
    lineSprites_fetched hd₁ board
  have hstrips : (p.plotted board (column_lt h)).strips board = p.strips board :=
    strips_fetched hd₁ board
  have hstatus : (p.plotted board (column_lt h)).status = p.status := by
    show (p.fetched board).status = _
    rw [status_fetched, if_neg hd₁]
  have h₂₅₅ : p.raster.dot - 1 = 255 := by omega
  simp only [h₂₅₅] at hline
  -- the last dot plots its pixel, and then looks for the hit on the whole line
  have htick :
      (p.tick board).status = ((p.plotted board (column_lt h)).drawSprites board).status := by
    show (p.draw board).status = _
    rw [draw, if_pos hl, visibleDot_last hd]
    dsimp only
    rw [status_showLine, hmask, if_pos hm]
  have hhits : (p.plotted board (column_lt h)).hitsSpriteZero (p.strips board) =
      { p with line := p.line.set 255 ((p.tick board).fetch.pixel p.standing 255) }.hitsSpriteZero
        (p.strips board) := by
    unfold hitsSpriteZero
    rw [hsprites, hmask, hline]
  rw [htick, drawSprites, hstrips, hhits, hstatus]
  dsimp only
  split
  · next hhit =>
    rw [Status.spriteZeroHit_setSpriteZeroHit]
    exact iff_of_true rfl (.inr hhit)
  · next hhit => exact (or_iff_left hhit).symm

/-- A background that is not shown has no pixels. -/
theorem BackgroundOpaque.enabled {p : Ppu} {b : Board} {x : Nat} (h : p.BackgroundOpaque b x) :
    p.mask.background = true := by
  have hm : ((fun q => q.tick b)^[x + 1] p).mask = p.mask := by
    rw [← mask_standing, standing_iterate_tick, Standing.mask_iterate_tick]
    rfl
  by_contra hb
  refine h ?_
  rw [backgroundAt, backgroundPixel, hm, Bool.eq_false_iff.2 hb]
  rfl

/-- **When sprite 0 meets the background.** -/
theorem hitsSpriteZero_iff {p q : Ppu} {b : Board} (hz : q.lineSprites.zero = p.shown.contains 0)
    (hm : q.mask = p.mask) (hl : q.line = p.backgroundLine b) :
    q.hitsSpriteZero (p.shown.map (p.stripAt b)) = true ↔
      ∃ x ≤ 254, p.Unclipped x ∧ 0 ∈ p.shown ∧ p.spritePixel b 0 x ≠ 0 ∧
        p.BackgroundOpaque b x := by
  have hpixel (x : Nat) (hx : x < 255) :
      backgroundOpaque (p.backgroundLine b)[x] = true ↔ p.BackgroundOpaque b x := by
    rw [backgroundOpaque_iff, backgroundLine, Vector.getElem_ofFn]
    rfl
  unfold hitsSpriteZero
  rw [hz, hm, hl, Bool.and_eq_true, Bool.and_eq_true, List.contains_iff_mem]
  constructor
  · -- sprite zero is the first of the line, so its strip is the first
    rintro ⟨⟨h₀, -⟩, h⟩
    obtain ⟨is, his⟩ := exists_cons_of_zero_mem p.pairwise_shown h₀
    rw [his] at h
    obtain ⟨x, hx, hu, ho, hb⟩ := (meetsBackground_iff ..).1 h
    exact ⟨x, by omega, (unclipped_iff p x).1 hu, h₀, (p.opaqueAt_stripAt b 0 x).1 ho,
      (hpixel x hx).1 hb⟩
  · rintro ⟨x, hx, hu, h₀, ho, hb⟩
    obtain ⟨is, his⟩ := exists_cons_of_zero_mem p.pairwise_shown h₀
    refine ⟨⟨h₀, hb.enabled⟩, ?_⟩
    rw [his]
    refine (meetsBackground_iff ..).2 ⟨x, by omega, (unclipped_iff p x).2 hu, ?_, ?_⟩
    · exact (p.opaqueAt_stripAt b 0 x).2 ho
    · exact (hpixel x (by omega)).2 hb

/-- Boards that show the same patterns give a sprite the same strip. -/
theorem Sprite.strip_showsAs {b board : Board} (h : b.ShowsAs board) (s : Sprite)
    (height table line : Nat) : s.strip b height table line = s.strip board height table line := by
  simp only [strip, h _]

/-- **Sprites over the background.**  If no register and no bank is touched from the first dot of a
visible line on and sprites are enabled, then the line holds the background up to the dot of the
last column, and that dot leaves the line that `Composited` says. -/
theorem compositing (p : Ppu) (b : Board) (hl : p.raster.line < 240) (hd : p.raster.dot = 1)
    (hs : p.mask.sprites = true) {q : Ppu} {c : Board} (h : QuietFor p b 255 q c) :
    (∀ x (hx : x < 256), x < 255 → q.line[x] = p.backgroundAt b x) ∧ p.Composited b (q.tick c) := by
  have hmid := h.midline hl hd (by decide)
  refine ⟨hmid.line, ?_⟩
  have hrendering : p.mask.rendering = true := by rw [Mask.rendering, hs, Bool.or_true]
  have hql : q.raster.line < visibleLines := by rw [hmid.raster]; exact hl
  have hqd : q.raster.dot = 256 := by rw [hmid.raster]
  have hqs : q.mask.sprites = true := by rw [hmid.mask, hs]
  -- the sprites of the line are those found at dot 1, and their strips show the board as it was
  -- then
  have hsprites := hmid.lineSprites (by decide)
  rw [lineSprites_evaluateSprites, if_pos hrendering, evaluate_eq] at hsprites
  have hstrips : q.strips c = p.shown.map (p.stripAt b) := by
    rw [strips, hsprites, hmid.control, hmid.raster, List.map_map]
    exact List.map_congr_left fun i _ => Sprite.strip_showsAs h.quiet.showsAs ..
  have hline := h.line_set_last hl hd
  -- so a column shows the overlay of the strips on the background
  have hpixel (x : Nat) (hx : x < 256) : (q.tick c).line[x] =
      overlayPixel (p.shown.map (p.stripAt b)) p.mask.spritesLeft x (p.backgroundAt b x) := by
    have ht := line_tick_last hql hqd c
    dsimp only at ht
    rw [if_pos hqs, hline, hstrips, hmid.mask] at ht
    simp only [ht, getElem_overlay _ _ _ hx, backgroundLine, Vector.getElem_ofFn]
  constructor
  case clipped =>
    intro x hx hu
    rw [hpixel x hx, overlayPixel, if_neg (mt (unclipped_iff p x).1 hu)]
  case transparent =>
    intro x hx ht
    rw [hpixel x hx, overlayPixel, find?_stripAt_eq_none p b ht]
    exact ite_self _
  case behind =>
    intro x hx i hw hbehind hopaque
    have hb : Sprite.behind (p.stripAt b i).attributes && backgroundOpaque (p.backgroundAt b x) :=
      Bool.and_eq_true_iff.2 ⟨(behind_iff _).2 hbehind, (backgroundOpaque_iff _).2 hopaque⟩
    rw [hpixel x hx, overlayPixel, find?_stripAt p b hw]
    dsimp only
    rw [if_pos hb]
    exact ite_self _
  case front =>
    intro x hx i hu hw hn
    have hb :
        ¬(Sprite.behind (p.stripAt b i).attributes && backgroundOpaque (p.backgroundAt b x)) := by
      rw [Bool.and_eq_true, behind_iff, backgroundOpaque_iff]
      exact hn
    rw [hpixel x hx, overlayPixel, if_pos ((unclipped_iff p x).2 hu), find?_stripAt p b hw]
    dsimp only
    rw [if_neg hb, toNat_colour_stripAt]
  case hit =>
    have hzero :
        ({ q with line := p.backgroundLine b } : Ppu).lineSprites.zero = p.shown.contains 0 :=
      congrArg LineSprites.zero hsprites
    rw [spriteZeroHit_tick_last hql hqd hqs c, hmid.hit, hline, hstrips,
      hitsSpriteZero_iff hzero hmid.mask rfl]

/-- A sprite from column 10 on, on a line without background. -/
theorem compositing_alone :
    let p : Ppu := {
      oam := ((((Vector.replicate 256 0xFF).set 0 19 (by decide)).set 1 1 (by decide)).set 2 0
        (by decide)).set 3 10 (by decide)
      mask := ⟨0x10⟩
      raster := { line := 20, dot := 1 } }
    let b : Board := { Board.blank with chr := Board.blank.chr.write 0x10 0xFF }
    let q := (fun q => q.tick b)^[255] p
    p.QuietFor b 255 q b ∧ p.Composited b (q.tick b) ∧
      (q.tick b).line.get ⟨10, by decide⟩ = 0x11 := by
  intro p b q
  have hq : p.QuietFor b 255 q b := quietFor_iterate p b 255
  have hc : p.Composited b (q.tick b) := (compositing p b (by decide) rfl (by decide) hq).2
  have hw : p.Wins b 10 0 :=
    ⟨by decide +kernel, by decide +kernel, fun j _ hj => absurd hj (Nat.not_lt_zero j)⟩
  refine ⟨hq, hc, UInt8.toNat_inj.1 ?_⟩
  refine (hc.front 10 (by decide) 0 (.inr (by decide)) hw fun h =>
    absurd h.1 (by decide +kernel)).trans ?_
  decide +kernel

end Ppu
end Famicom
