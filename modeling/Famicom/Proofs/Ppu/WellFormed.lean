/-
# What the picture unit keeps

The processor may turn rendering on and off, change the height of sprites or write an address at
any dot. Whatever it does, the numbers that the picture unit keeps stay within their bits, palette
cells and pixels within their ranges, and the sprites of a line are sprites that cross it for as
long as the line is drawn (`Ppu.Reachable.wellFormed`).

The last is the delicate one: the sprites are looked for in dot 1, and what is kept of them then is
what dot 256 draws, 255 dots later.  The height is kept with them, so a change of the control
register in between does not matter.
-/

import Famicom.Proofs.Ppu.Fetch
import Famicom.Proofs.Ppu.Reachable

namespace Famicom
namespace Ppu

/-- Sprites that cross a line. -/
structure LineSprites.Cross (l : LineSprites) (line : Nat) : Prop where
  height : l.height = 8 ∨ l.height = 16
  top_le : ∀ s ∈ l.sprites, s.top ≤ line
  line_lt : ∀ s ∈ l.sprites, line < s.top + l.height

/-- A well-formed state of the picture unit. -/
structure WellFormed (p : Ppu) : Prop where
  dot_le : p.raster.dot ≤ 340
  line_le : p.raster.line ≤ 261
  v_le : p.scroll.v ≤ 0x7FFF
  t_le : p.scroll.t ≤ 0x7FFF
  fineX_le : p.scroll.fineX ≤ 7
  sprites_le : p.lineSprites.sprites.length ≤ 8
  cell_lt : ∀ c ∈ p.palette.cells, c < 64
  pixel_lt : ∀ pixel ∈ p.line, pixel < 32
  cross : p.raster.line < 240 → 2 ≤ p.raster.dot → p.raster.dot ≤ 256 →
    p.lineSprites.Cross p.raster.line

/-! ### Sprites -/

section Sprites

variable {oam : Vector UInt8 256} {height line : Nat}

/-- **The search finds the first of the sprites that the line crosses**, as many as there is room
for, and it knows whether there are more. -/
theorem collect_eq (is : List Nat) (room : Nat) :
    collect oam height line is room =
      let found := is.filter fun i => (Sprite.ofOam oam i).crosses height line
      { sprites := (found.take room).map (Sprite.ofOam oam)
        height
        zero := (found.take room).contains 0
        overflow := room < found.length } := by
  induction is generalizing room with
  | nil => simp [collect]
  | cons i is ih =>
    by_cases hc : (Sprite.ofOam oam i).crosses height line = true
    · cases room with
      | zero => simp [collect, hc]
      | succ room =>
        simp [collect, hc, ih, List.contains_cons, BEq.comm (a := 0), -List.contains_eq_mem]
    · simp [collect, hc, ih]

/-- The sprites that are collected keep the height that was asked for. -/
theorem height_collect (is : List Nat) (room : Nat) :
    (collect oam height line is room).height = height := by
  rw [collect_eq]

/-- What is collected crosses the line: the search adds no other sprite. -/
theorem crosses_of_mem_collect {is : List Nat} {room : Nat} {s : Sprite}
    (h : s ∈ (collect oam height line is room).sprites) : s.crosses height line = true := by
  rw [collect_eq] at h
  obtain ⟨i, hi, rfl⟩ := List.mem_map.1 h
  exact (List.mem_filter.1 (List.mem_of_mem_take hi)).2

/-- What is found crosses the line. -/
theorem cross_evaluate (hh : height = 8 ∨ height = 16) : (evaluate oam height line).Cross line where
  height := by rw [evaluate, height_collect]; exact hh
  top_le s hs := by
    have hc := crosses_of_mem_collect hs
    rw [Sprite.crosses, Bool.and_eq_true] at hc
    exact of_decide_eq_true hc.1
  line_lt s hs := by
    have hc := crosses_of_mem_collect hs
    rw [Sprite.crosses, Bool.and_eq_true] at hc
    rw [evaluate, height_collect]
    exact of_decide_eq_true hc.2

end Sprites

/-- Sprites have eight rows or sixteen. -/
theorem Control.spriteHeight_cases (c : Control) : c.spriteHeight = 8 ∨ c.spriteHeight = 16 := by
  unfold spriteHeight
  split
  · exact .inr rfl
  · exact .inl rfl

/-- After the search every sprite of the line crosses it. -/
theorem cross_evaluateSprites (p : Ppu) : p.evaluateSprites.lineSprites.Cross p.raster.line := by
  unfold evaluateSprites
  split
  · exact cross_evaluate p.control.spriteHeight_cases
  · exact ⟨.inl rfl, nofun, nofun⟩

/-- After the search the line has at most eight sprites. -/
theorem length_evaluateSprites_le (p : Ppu) : p.evaluateSprites.lineSprites.sprites.length ≤ 8 := by
  unfold evaluateSprites
  split
  · exact length_evaluate_le _ _ _
  · exact Nat.zero_le 8

/-- The pre-render line moves `v` and lowers flags, and leaves what is drawn. -/
theorem spared_preRenderDot (p : Ppu) (board : Board) : Spared p (p.preRenderDot board) := by
  have hc : Spared p (if p.raster.dot = 1 then { p with status := p.status.clear } else p) := by
    split <;> exact ⟨rfl, rfl, rfl⟩
  unfold preRenderDot
  dsimp only
  generalize (if p.raster.dot = 1 then { p with status := p.status.clear } else p) = q at hc ⊢
  split
  · have hq := spared_backgroundDot q board
    exact ⟨hq.lineSprites.trans hc.lineSprites, hq.line.trans hc.line, hq.palette.trans hc.palette⟩
  · exact hc

/-- Once its background has been fetched, a visible dot changes neither the sprites nor the
palettes. -/
theorem visibleDot_fetched (p : Ppu) (board : Board) :
    (p.visibleDot board).lineSprites = (p.fetched board).lineSprites ∧
      (p.visibleDot board).palette = (p.fetched board).palette := by
  by_cases h : 1 ≤ p.raster.dot ∧ p.raster.dot ≤ 256
  · rcases Nat.lt_or_eq_of_le h.2 with h₂ | h₂
    · rw [visibleDot_of_lt h.1 h₂]
      exact ⟨rfl, rfl⟩
    · rw [visibleDot_last h₂]
      dsimp only
      rw [(spared_showLine _).lineSprites, (spared_showLine _).palette]
      split <;> exact ⟨rfl, rfl⟩
  · rw [visibleDot_of_not h]
    exact ⟨rfl, rfl⟩

/-- Dot 1 is the one that makes the search, whether or not rendering is on. -/
theorem lineSprites_fetched_first {p : Ppu} (h : p.raster.dot = 1) (board : Board) :
    (p.fetched board).lineSprites = p.evaluateSprites.lineSprites := by
  unfold fetched
  rw [if_pos h]
  dsimp only
  split
  · exact (spared_backgroundDot _ board).lineSprites
  · rfl

/-- Sprites are looked for in the first dot of a visible line and at no other time. -/
theorem lineSprites_tick (p : Ppu) (board : Board) :
    (p.tick board).lineSprites =
      if p.raster.line < visibleLines ∧ p.raster.dot = 1 then p.evaluateSprites.lineSprites
      else p.lineSprites := by
  show (p.draw board).lineSprites = _
  unfold draw
  by_cases hl : p.raster.line < visibleLines
  · rw [if_pos hl, (visibleDot_fetched p board).1]
    by_cases hd : p.raster.dot = 1
    · rw [if_pos ⟨hl, hd⟩, lineSprites_fetched_first hd]
    · rw [if_neg fun h => hd h.2, lineSprites_fetched hd]
  · have hn : ¬(p.raster.line < visibleLines ∧ p.raster.dot = 1) := fun h => hl h.1
    rw [if_neg hl, if_neg hn]
    split
    · exact (spared_preRenderDot p board).lineSprites
    · split <;> rfl

/-! ### Pixels -/

/-- Two bits of pattern and two of attributes make a pixel of the background. -/
theorem Background.pixel_lt (b : Background) (fineX : Nat) : b.pixel fineX < 16 := by
  unfold Background.pixel
  dsimp only
  generalize (b.patternLow &&& _ != 0) = low
  generalize (b.patternHigh &&& _ != 0) = high
  generalize (b.paletteLow &&& _ != 0) = first
  generalize (b.paletteHigh &&& _ != 0) = second
  revert low high first second
  decide

/-- A pixel of the line before the sprites is a colour number of the background. -/
theorem Fetch.pixel_lt (f : Fetch) (s : Standing) (x : Nat) : f.pixel s x < 32 := by
  unfold Fetch.pixel
  split
  · exact UInt8.lt_trans (f.background.pixel_lt s.fineX) (by decide)
  · decide

/-- Masked, a byte is at most the mask. -/
theorem and_le_mask (v mask : UInt8) : v &&& mask ≤ mask := by
  rw [UInt8.le_iff_toNat_le, UInt8.toNat_and]
  exact Nat.and_le_right

/-- Two planes give two bits. -/
theorem Strip.pattern_le (s : Strip) (x : Nat) : s.pattern x ≤ 3 := by
  unfold Strip.pattern
  split
  · dsimp only
    have hl := and_le_mask (s.low >>> UInt8.ofNat (if s.attributes &&& 0x40 != 0 then x - s.x
      else 7 - (x - s.x))) 1
    have hh := and_le_mask (s.high >>> UInt8.ofNat (if s.attributes &&& 0x40 != 0 then x - s.x
      else 7 - (x - s.x))) 1
    rw [UInt8.le_iff_toNat_le] at *
    simp only [UInt8.toNat_add, UInt8.toNat_mul, UInt8.reduceToNat] at *
    omega
  · decide

/-- The colours of the sprites are the upper sixteen. -/
theorem Strip.colour_lt (s : Strip) (x : Nat) : s.colour x < 32 := by
  have ha := and_le_mask s.attributes 3
  have hp := s.pattern_le x
  rw [UInt8.le_iff_toNat_le] at ha hp
  have h₄ : ((s.attributes &&& 3) * 4).toNat < 2 ^ 5 := by
    simp only [UInt8.toNat_mul, UInt8.reduceToNat] at *
    omega
  rw [UInt8.lt_iff_toNat_lt, Strip.colour, UInt8.toNat_or, UInt8.toNat_or]
  exact Nat.or_lt_two_pow (Nat.or_lt_two_pow (by decide) h₄) (Nat.lt_of_le_of_lt hp (by decide))

/-- The overlay chooses between the pixel below and a colour of a sprite, so a bound on both is a
bound on what is shown. -/
theorem overlayPixel_lt (strips : List Strip) (showLeft : Bool) (x : Nat) {pixel : UInt8}
    (h : pixel < 32) : overlayPixel strips showLeft x pixel < 32 := by
  unfold overlayPixel
  split
  · split
    · exact h
    · next s _ =>
      split
      · exact h
      · exact s.colour_lt x
  · exact h

/-- Strips laid over a line of pixels make a line of pixels. -/
theorem overlay_lt {pixels : Vector UInt8 256} (h : ∀ pixel ∈ pixels, pixel < 32)
    (strips : List Strip) (showLeft : Bool) :
    ∀ pixel ∈ overlay strips showLeft pixels, pixel < 32 := by
  unfold overlay
  split
  · exact h
  · intro pixel hp
    obtain ⟨x, hx, rfl⟩ := Vector.mem_mapIdx.1 hp
    exact overlayPixel_lt strips showLeft x (h _ (Vector.getElem_mem hx))

/-- No dot but those of a visible line draws a pixel. -/
theorem line_tick_of_not {p : Ppu}
    (h : ¬(p.raster.line < visibleLines ∧ 1 ≤ p.raster.dot ∧ p.raster.dot ≤ 256)) (board : Board) :
    (p.tick board).line = p.line := by
  show (p.draw board).line = _
  unfold draw
  split
  · next hl => rw [visibleDot_of_not fun hd => h ⟨hl, hd⟩, line_fetched]
  · split
    · exact (spared_preRenderDot p board).line
    · split <;> rfl

/-- A bound on all cells of a vector is kept by a store of a value within it. -/
theorem mem_set_lt {n : Nat} {xs : Vector UInt8 n} {bound : UInt8} (h : ∀ x ∈ xs, x < bound)
    {i : Nat} (hi : i < n) {v : UInt8} (hv : v < bound) : ∀ x ∈ xs.set i v, x < bound := by
  intro x hx
  obtain hx | rfl := Vector.mem_or_eq_of_mem_set hx
  · exact h x hx
  · exact hv

/-- **A dot keeps the line a line of pixels.** -/
theorem line_tick_lt {p : Ppu} (h : ∀ pixel ∈ p.line, pixel < 32) (board : Board) :
    ∀ pixel ∈ (p.tick board).line, pixel < 32 := by
  by_cases hd : p.raster.line < visibleLines ∧ 1 ≤ p.raster.dot ∧ p.raster.dot ≤ 256
  · obtain ⟨hl, h₁, h₂⟩ := hd
    rcases Nat.lt_or_eq_of_le h₂ with h₂ | h₂
    · rw [line_tick hl h₁ h₂]
      exact mem_set_lt h _ (Fetch.pixel_lt _ _ _)
    · rw [line_tick_last hl h₂]
      dsimp only
      split
      · exact overlay_lt (mem_set_lt h _ (Fetch.pixel_lt _ _ _)) _ _
      · exact mem_set_lt h _ (Fetch.pixel_lt _ _ _)
  · rw [line_tick_of_not hd]
    exact h

/-! ### Places and palettes -/

/-- Walking right, down, back to the left and to the top each keeps a place of fifteen bits. -/
theorem Fetch.v_step_lt {f : Fetch} (h : f.v < 32768) (s : Standing) (board : Board) :
    (f.step s board).v < 32768 := by
  unfold Fetch.step
  dsimp only
  split
  · exact Place.stepRight_lt h
  · exact h

/-- A dot that does not render leaves the place, and one that does walks it. -/
theorem Fetch.v_dot_lt {f : Fetch} (h : f.v < 32768) (s : Standing) (board : Board) :
    (f.dot s board).v < 32768 := by
  have hf : (if fetchesIn s.raster.dot then f.step s board else f).v < 32768 := by
    split
    · exact Fetch.v_step_lt h s board
    · exact h
  unfold Fetch.dot
  dsimp only
  generalize (if fetchesIn s.raster.dot then f.step s board else f) = g at hf ⊢
  split
  · exact Place.stepDown_lt hf
  · split
    · exact Place.withColumnOf_lt _ _
    · split
      · exact Place.withRowOf_lt _ _
      · exact hf

/-- The place being fetched keeps fifteen bits along the dots. -/
theorem v_tick_lt {p : Ppu} (h : p.scroll.v < 32768) (board : Board) :
    (p.tick board).scroll.v < 32768 := by
  show (p.tick board).fetch.v < 32768
  rw [fetch_tick]
  split
  · exact Fetch.v_dot_lt h _ _
  · exact h

/-- No fetch of a dot touches the palette. -/
theorem palette_fetched (p : Ppu) (board : Board) : (p.fetched board).palette = p.palette := by
  have he : (if p.raster.dot = 1 then p.evaluateSprites else p).palette = p.palette := by
    unfold evaluateSprites
    split
    · split <;> rfl
    · rfl
  unfold fetched
  dsimp only
  generalize (if p.raster.dot = 1 then p.evaluateSprites else p) = q at he ⊢
  split
  · exact (spared_backgroundDot q board).palette.trans he
  · exact he

/-- The palette is the processor's: no dot changes a cell of it. -/
theorem palette_tick (p : Ppu) (board : Board) : (p.tick board).palette = p.palette := by
  show (p.draw board).palette = _
  unfold draw
  split
  · rw [(visibleDot_fetched p board).2, palette_fetched]
  · split
    · exact (spared_preRenderDot p board).palette
    · split <;> rfl

/-! ### Every state -/

/-- A well-formed unit has its start within fifteen bits and its fine scroll within seven. -/
theorem WellFormed.bounded {p : Ppu} (h : p.WellFormed) : p.standing.Bounded where
  start_lt := Nat.lt_succ_of_le h.t_le
  fineX_lt := Nat.lt_succ_of_le h.fineX_le
  line_lt := Nat.lt_succ_of_le h.line_le
  dot_lt := Nat.lt_succ_of_le h.dot_le

/-- **A dot keeps the state well formed.** -/
theorem WellFormed.tick {p : Ppu} (h : p.WellFormed) (board : Board) :
    (p.tick board).WellFormed := by
  have hb : (p.tick board).standing.Bounded := by
    rw [standing_tick]
    exact h.bounded.tick
  exact {
    dot_le := Nat.le_of_lt_succ hb.dot_lt
    line_le := Nat.le_of_lt_succ hb.line_lt
    v_le := Nat.le_of_lt_succ (v_tick_lt (Nat.lt_succ_of_le h.v_le) board)
    t_le := Nat.le_of_lt_succ hb.start_lt
    fineX_le := Nat.le_of_lt_succ hb.fineX_lt
    sprites_le := by
      rw [lineSprites_tick]
      split
      · exact length_evaluateSprites_le p
      · exact h.sprites_le
    cell_lt := by
      rw [palette_tick]
      exact h.cell_lt
    pixel_lt := line_tick_lt h.pixel_lt board
    cross := by
      rw [lineSprites_tick, raster_tick]
      -- a line goes on from dot to dot, or it is new and has not come to dot 2
      rcases p.raster.advance_cases p.mask.rendering with ⟨-, ha⟩ | ⟨-, ha⟩
      · rw [ha]
        dsimp only
        intro hl h₁ h₂
        split
        · exact cross_evaluateSprites p
        · next hn => exact h.cross hl (by simp only [visibleLines] at hn; omega) (by omega)
      · rw [ha, Raster.dot_nextLine]
        intro _ h₁
        omega }

/-- An access of the processor has no part in the line that is being drawn. -/
theorem WellFormed.access {p q : Ppu} (h : p.WellFormed) (hb : q.standing.Bounded)
    (hr : q.raster = p.raster) (hs : q.lineSprites = p.lineSprites) (hl : q.line = p.line)
    (hv : q.scroll.v < 32768) (hc : ∀ c ∈ q.palette.cells, c < 64) : q.WellFormed where
  dot_le := Nat.le_of_lt_succ hb.dot_lt
  line_le := Nat.le_of_lt_succ hb.line_lt
  v_le := Nat.le_of_lt_succ hv
  t_le := Nat.le_of_lt_succ hb.start_lt
  fineX_le := Nat.le_of_lt_succ hb.fineX_lt
  sprites_le := by rw [hs]; exact h.sprites_le
  cell_lt := hc
  pixel_lt := by rw [hl]; exact h.pixel_lt
  cross := by rw [hr, hs]; exact h.cross

/-- **A read keeps the state well formed.** -/
theorem WellFormed.read {p : Ppu} (h : p.WellFormed) (board : Board) (register : Nat) :
    (p.read board register).2.WellFormed := by
  have hv := Nat.lt_succ_of_le h.v_le
  unfold Ppu.read
  split
  · exact h.access (h.bounded.congr rfl rfl rfl) rfl rfl rfl hv h.cell_lt
  · exact h
  · unfold readData
    dsimp only
    split
    · exact h.access h.bounded rfl rfl rfl (Nat.mod_lt _ (by decide)) h.cell_lt
    · exact h.access h.bounded rfl rfl rfl (Nat.mod_lt _ (by decide)) h.cell_lt
  · exact h

/-- The object memory holds any bytes, so a store in it asks for nothing. -/
theorem WellFormed.writeOam {p : Ppu} (h : p.WellFormed) (v : UInt8) : (p.writeOam v).WellFormed :=
  h.access h.bounded rfl rfl rfl (Nat.lt_succ_of_le h.v_le) h.cell_lt

/-- What is written to the palette is cut to six bits. -/
theorem cell_write_lt {palette : Palette} (h : ∀ c ∈ palette.cells, c < 64) (address : Nat)
    (v : UInt8) : ∀ c ∈ (palette.write address v).cells, c < 64 :=
  mem_set_lt h (Palette.cell_lt address) (UInt8.lt_of_le_of_lt (and_le_mask v 0x3F) (by decide))

/-- A store through the data port reaches the palette or the board, and moves `v` within its
bits. -/
theorem WellFormed.writeData {p : Ppu} (h : p.WellFormed) (board : Board) (v : UInt8) :
    (p.writeData board v).1.WellFormed := by
  unfold Ppu.writeData
  dsimp only
  split
  · exact h.access h.bounded rfl rfl rfl (Nat.mod_lt _ (by decide)) (cell_write_lt h.cell_lt _ v)
  · exact h.access h.bounded rfl rfl rfl (Nat.mod_lt _ (by decide)) h.cell_lt

/-- The scroll register sets where the picture starts, and not the place being fetched. -/
theorem Scroll.v_writeScroll (c : Scroll) (v : UInt8) : (c.writeScroll v).v = c.v := by
  unfold writeScroll
  dsimp only
  split <;> rfl

/-- The second half of an address copies `t` to `v`, and `t` has fifteen bits. -/
theorem Scroll.v_writeAddress_lt {c : Scroll} (hv : c.v < 32768) (ht : c.t < 32768) (v : UInt8) :
    (c.writeAddress v).v < 32768 := by
  have := v.toNat_lt
  unfold writeAddress
  dsimp only
  split
  · dsimp only
    omega
  · exact hv

/-- A write to any of the eight registers keeps the picture unit well-formed. -/
theorem WellFormed.writeOwn {p : Ppu} (h : p.WellFormed) (register : Nat) (v : UInt8) :
    (p.writeOwn register v).WellFormed := by
  have hv := Nat.lt_succ_of_le h.v_le
  have hb := h.bounded.write register v
  rw [← standing_writeOwn] at hb
  unfold Ppu.writeOwn at hb ⊢
  split
  · exact h.access hb rfl rfl rfl hv h.cell_lt
  · exact h.access hb rfl rfl rfl hv h.cell_lt
  · exact h.access h.bounded rfl rfl rfl hv h.cell_lt
  · exact h.writeOam v
  · exact h.access hb rfl rfl rfl (by rw [Scroll.v_writeScroll]; exact hv) h.cell_lt
  · exact h.access hb rfl rfl rfl
      (Scroll.v_writeAddress_lt hv (Nat.lt_succ_of_le h.t_le) v) h.cell_lt
  · exact h

/-- **A write keeps the state well formed.** -/
theorem WellFormed.write {p : Ppu} (h : p.WellFormed) (board : Board) (register : Nat) (v : UInt8) :
    (p.write board register v).1.WellFormed := by
  have hq : ({ p with latch := v } : Ppu).WellFormed :=
    h.access h.bounded rfl rfl rfl (Nat.lt_succ_of_le h.v_le) h.cell_lt
  unfold Ppu.write
  dsimp only
  split
  · exact hq.writeData board v
  · exact hq.writeOwn register v

/-- A picture unit starts well-formed: no sprites, a blank line, and all zeros. -/
theorem wellFormed_initial : ({} : Ppu).WellFormed where
  dot_le := Nat.zero_le _
  line_le := Nat.zero_le _
  v_le := Nat.zero_le _
  t_le := Nat.zero_le _
  fineX_le := Nat.zero_le _
  sprites_le := Nat.zero_le _
  cell_lt c hc := by
    rw [Vector.eq_of_mem_replicate hc]
    decide
  pixel_lt pixel hp := by
    rw [Vector.eq_of_mem_replicate hp]
    decide
  cross _ h := absurd h (by decide)

/-- **Every state that can be come to is well formed.** -/
theorem Reachable.wellFormed {p : Ppu} (h : p.Reachable) : p.WellFormed := by
  induction h with
  | initial => exact wellFormed_initial
  | tick board _ ih => exact ih.tick board
  | read board register _ ih => exact ih.read board register
  | write board register v _ ih => exact ih.write board register v
  | writeOam v _ ih => exact ih.writeOam v
  | takeNmi _ ih =>
    exact ih.access (ih.bounded.congr rfl rfl rfl) rfl rfl rfl
      (Nat.lt_succ_of_le ih.v_le) ih.cell_lt
  | clearFrameReady _ ih =>
    exact ih.access (ih.bounded.congr rfl rfl rfl) rfl rfl rfl
      (Nat.lt_succ_of_le ih.v_le) ih.cell_lt

end Ppu
end Famicom
