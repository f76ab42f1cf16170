/-
# Tiles and sprites in machine arithmetic

The definitions of the picture unit calculate with numbers that have no bound, with differences
that stop at zero, and with indices that cannot miss.  In a machine none of that can be had: a word
has 16 bits, a difference below zero is a failure, and so is an index beyond an array.

Here what is done with the tiles of the background and with the sprites of a line is written out in
such arithmetic, a failure being `none`.  Of the patterns more is asked: their addresses have to
lie below `$2000`, where the patterns are.  Each definition is followed by the conditions under
which it does not fail, and then it gives what the one without bounds gives.
-/

import Famicom.Proofs.Ppu.WellFormed
import Mathlib.Data.Nat.PSub

namespace Famicom
namespace Ppu

/-! ### The arithmetic of a machine -/

/-- A number that has to lie below a bound. -/
def fits? (bound n : Nat) : Option Nat := if n < bound then some n else none

/-- A number as a word. -/
def word? (n : Nat) : Option Nat := fits? 0x10000 n

/-- An address as that of a pattern. -/
def patternCell? (address : Nat) : Option Nat := fits? 0x2000 address

/-- An array with an entry replaced. -/
def store? {α : Type} {n : Nat} (xs : Vector α n) (i : Nat) (v : α) : Option (Vector α n) :=
  if h : i < n then some (xs.set i v) else none

/-- A number below its bound passes the check, and is not changed by it. -/
theorem fits?_eq {bound n : Nat} (h : n < bound) : fits? bound n = some n := if_pos h

/-- Sixteen bits hold every number below `0x10000`. -/
theorem word?_eq {n : Nat} (h : n < 0x10000) : word? n = some n := if_pos h

/-- The pattern tables have `0x2000` cells. -/
theorem patternCell?_eq {n : Nat} (h : n < 0x2000) : patternCell? n = some n := if_pos h

/-- A store within the vector is made. -/
theorem store?_eq {α : Type} {n : Nat} (xs : Vector α n) {i : Nat} (h : i < n) (v : α) :
    store? xs i v = some (xs.set i v) := dif_pos h

/-- A difference that does not fall below zero is the difference. -/
theorem psub_eq {m n : Nat} (h : n ≤ m) : m.psub n = some (m - n) :=
  Nat.psub_eq_some.2 (Nat.sub_add_cancel h)

/-! ### Looking for sprites -/

/-- The sprite with number `i`. -/
def Sprite.ofOam? (oam : Vector UInt8 256) (i : Nat) : Option Sprite := do
  let y ← oam[i * 4]?
  let tile ← oam[i * 4 + 1]?
  let attributes ← oam[i * 4 + 2]?
  let x ← oam[i * 4 + 3]?
  some { y, tile, attributes, x }

/-- Whether a line crosses a sprite. -/
def Sprite.crosses? (s : Sprite) (height line : Nat) : Option Bool := do
  let top ← word? (s.y.toNat + 1)
  let bottom ← word? (top + height)
  some (top ≤ line && line < bottom)

/-- Look for the sprites that a line crosses, so many having been found. -/
def collect? (oam : Vector UInt8 256) (height line : Nat) : List Nat → Nat → Option LineSprites
  | [], _ => some { height }
  | i :: is, found => do
    let s ← Sprite.ofOam? oam i
    if ← s.crosses? height line then
      if found = spritesPerLine then some { height, overflow := true }
      else do
        let slot ← fits? spritesPerLine found
        let rest ← collect? oam height line is (slot + 1)
        some { rest with sprites := s :: rest.sprites, zero := i == 0 || rest.zero }
    else collect? oam height line is found

/-- Look for the sprites of this line. -/
def evaluateSprites? (p : Ppu) : Option Ppu :=
  if p.mask.rendering then do
    let lineSprites ← collect? p.oam p.control.spriteHeight p.raster.line (List.range 64) 0
    some { p with
      lineSprites
      status := if lineSprites.overflow then p.status.setSpriteOverflow else p.status }
  else some { p with lineSprites := {} }

/-- The four bytes of each of the 64 sprites lie within the object memory. -/
theorem ofOam?_eq (oam : Vector UInt8 256) {i : Nat} (h : i < 64) :
    Sprite.ofOam? oam i = some (Sprite.ofOam oam i) := by
  have hi : i % 64 = i := Nat.mod_eq_of_lt h
  have get {j : Nat} (hj : j < 256) : oam[j]? = some oam[j] := Vector.getElem?_eq_getElem hj
  rw [Sprite.ofOam?, get (by omega), get (by omega), get (by omega), get (by omega)]
  simp only [Sprite.ofOam, hi]
  rfl

/-- The lower edge of a sprite is no more than `255 + 16`, which a word holds. -/
theorem crosses?_eq (s : Sprite) {height : Nat} (h : height ≤ 16) (line : Nat) :
    s.crosses? height line = some (s.crosses height line) := by
  have hy := s.y.toNat_lt
  rw [Sprite.crosses?, word?_eq (by omega)]
  simp only [Option.bind_eq_bind, Option.bind_some]
  rw [word?_eq (by omega)]
  rfl

/-- While there is room, there is a slot. -/
theorem collect?_eq (oam : Vector UInt8 256) {height : Nat} (h : height ≤ 16) (line : Nat)
    {is : List Nat} (his : ∀ i ∈ is, i < 64) {found : Nat} (hf : found ≤ spritesPerLine) :
    collect? oam height line is found =
      some (collect oam height line is (spritesPerLine - found)) := by
  induction is generalizing found with
  | nil => rfl
  | cons i is ih =>
    have hi : i < 64 := his i List.mem_cons_self
    have ih := fun {found} => @ih (fun j hj => his j (List.mem_cons_of_mem i hj)) found
    rw [collect?, ofOam?_eq oam hi]
    simp only [Option.bind_eq_bind, Option.bind_some, crosses?_eq _ h]
    rcases Nat.eq_or_lt_of_le hf with rfl | hlt
    · rw [Nat.sub_self, collect, ih (Nat.le_refl _), Nat.sub_self]
      simp only [if_true]
      split <;> rfl
    · obtain ⟨room, hroom⟩ : ∃ room, spritesPerLine - found = room + 1 :=
        ⟨spritesPerLine - found - 1, by omega⟩
      have hr : spritesPerLine - (found + 1) = room := by omega
      rw [hroom, collect, fits?_eq hlt, if_neg (Nat.ne_of_lt hlt), ih hf, hroom]
      simp only [Option.bind_some, ih hlt, hr]
      split <;> rfl

/-- The search looks at 64 sprites, each of them within the object memory, whatever it holds. -/
theorem evaluateSprites?_eq (p : Ppu) : p.evaluateSprites? = some p.evaluateSprites := by
  have h : p.control.spriteHeight ≤ 16 := by
    rcases p.control.spriteHeight_cases with h | h <;> omega
  unfold evaluateSprites? evaluateSprites
  rw [collect?_eq p.oam h _ (fun i hi => List.mem_range.1 hi) (Nat.zero_le _)]
  split <;> rfl

/-! ### The background -/

/-- One tile to the right. -/
def Place.stepRight? (v : Nat) : Option Nat :=
  if column v = 31 then some (stepRight v) else word? (v + 1)

/-- One row down. -/
def Place.stepDown? (v : Nat) : Option Nat :=
  if fineRow v < 7 then word? (v + 4096) else some (stepDown v)

/-- The fetch that falls on a dot. -/
def Background.fetch? (b : Background) (board : Board) (table v phase : Nat) : Option Background :=
  match phase with
  | 4 => do
    let address ← patternCell? (b.patternAddress table v)
    some { b with low := board.readPpu address }
  | 6 => do
    let address ← patternCell? (b.patternAddress table v + 8)
    some { b with high := board.readPpu address }
  | phase => some (b.fetch board table v phase)

/-- Shift the background and do the fetch that falls on this dot. -/
def fetchBackground? (p : Ppu) (board : Board) : Option Ppu := do
  let place ← p.raster.dot.psub 1
  let phase := place % 8
  let background := if p.mask.background then p.background.shift else p.background
  if phase = 7 then do
    let v ← Place.stepRight? p.scroll.v
    some { p with background, scroll := { p.scroll with v } }
  else do
    let background ← background.fetch? board p.control.backgroundTable p.scroll.v phase
    some { p with background }

/-- What the background does in this dot. -/
def backgroundDot? (p : Ppu) (board : Board) : Option Ppu := do
  let dot := p.raster.dot
  let p ← (if fetchesIn dot then p.fetchBackground? board else some p)
  if dot = 256 then do
    let v ← Place.stepDown? p.scroll.v
    some { p with scroll := { p.scroll with v } }
  else if dot = 257 then
    some { p with background := p.background.load, scroll := p.scroll.returnColumn }
  else if p.raster.line = preRenderLine ∧ 280 ≤ dot ∧ dot ≤ 304 then
    some { p with scroll := p.scroll.returnRow }
  else some p

/-- The background pixel of column `x`.  A word can be shifted by less than its bits. -/
def backgroundPixel? (p : Ppu) (x : Nat) : Option UInt8 :=
  if p.mask.background && unclipped p.mask.backgroundLeft x then do
    let shift ← fits? 16 p.scroll.fineX
    some (p.background.pixel shift)
  else some 0

/-- A step to the right of a place of fifteen bits stays within a word. -/
theorem Place.stepRight?_eq {v : Nat} (h : v < 32768) : stepRight? v = some (stepRight v) := by
  unfold stepRight? stepRight
  split
  · rfl
  · exact word?_eq (by omega)

/-- A step down of a place of fifteen bits stays within a word. -/
theorem Place.stepDown?_eq {v : Nat} (h : v < 32768) : stepDown? v = some (stepDown v) := by
  unfold stepDown?
  split
  · next hf =>
    rw [word?_eq (by omega), stepDown, if_pos hf]
  · rfl

/-- The background has one of the two pattern tables. -/
theorem Control.backgroundTable_le (c : Control) : c.backgroundTable ≤ 0x1000 := by
  unfold backgroundTable
  split <;> omega

/-- The patterns of tiles lie where patterns are. -/
theorem Background.patternAddress_lt (b : Background) (c : Control) (v : Nat) :
    b.patternAddress c.backgroundTable v + 8 < 0x2000 := by
  have ht := b.tile.toNat_lt
  have hc := c.backgroundTable_le
  unfold patternAddress Place.fineRow
  omega

/-- Each of the eight phases reads a cell of a name table or of a pattern table: tile, row and plane
fill the lower twelve bits, the table the thirteenth. -/
theorem Background.fetch?_eq (b : Background) (board : Board) (c : Control) (v phase : Nat) :
    b.fetch? board c.backgroundTable v phase = some (b.fetch board c.backgroundTable v phase) := by
  have ha := b.patternAddress_lt c v
  unfold Background.fetch?
  split
  · rw [patternCell?_eq (by omega)]
    rfl
  · rw [patternCell?_eq ha]
    rfl
  · rfl

/-- From dot 1 on the phase of a fetch is `dot - 1`, which does not fall below zero. -/
theorem fetchBackground?_eq {p : Ppu} (hv : p.scroll.v < 32768) (hd : 1 ≤ p.raster.dot)
    (board : Board) : p.fetchBackground? board = some (p.fetchBackground board) := by
  unfold fetchBackground? fetchBackground
  rw [psub_eq hd]
  simp only [Option.bind_eq_bind, Option.bind_some, Place.stepRight?_eq hv, Background.fetch?_eq]
  split <;> rfl

/-- A dot of the background, with the walks to the right and down. -/
theorem backgroundDot?_eq {p : Ppu} (hv : p.scroll.v < 32768) (board : Board) :
    p.backgroundDot? board = some (p.backgroundDot board) := by
  have hf : (if fetchesIn p.raster.dot then p.fetchBackground? board else some p) =
      some (if fetchesIn p.raster.dot then p.fetchBackground board else p) := by
    split
    · next hd =>
      rw [fetchesIn_iff] at hd
      exact fetchBackground?_eq hv (by omega) board
    · rfl
  -- the place is still in range after the fetch, so the walk down is too
  have hq : (if fetchesIn p.raster.dot then p.fetchBackground board else p).scroll.v < 32768 := by
    split
    · rw [fetchBackground_eq]
      exact Fetch.v_step_lt hv _ board
    · exact hv
  unfold backgroundDot? backgroundDot
  dsimp only
  rw [hf]
  generalize (if fetchesIn p.raster.dot then p.fetchBackground board else p) = q at hq ⊢
  simp only [Option.bind_eq_bind, Option.bind_some, Place.stepDown?_eq hq]
  split
  · rfl
  · split
    · rfl
    · split <;> rfl

/-- The pixel that is shown is found by a shift of `15 - fineX`, so the fine scroll must not
pass 7. -/
theorem backgroundPixel?_eq {p : Ppu} (h : p.scroll.fineX ≤ 7) (x : Nat) :
    p.backgroundPixel? x = some (p.backgroundPixel x) := by
  unfold backgroundPixel? backgroundPixel
  rw [fits?_eq (by omega)]
  split <;> rfl

/-! ### Sprites over the background -/

/-- The row of the pattern that a line shows. -/
def Sprite.patternRow? (s : Sprite) (height line : Nat) : Option Nat := do
  let row ← line.psub s.top
  if s.attributes &&& 0x80 != 0 then do
    let last ← height.psub 1
    last.psub row
  else some row

/-- Where the low plane of a pattern row is. -/
def Sprite.patternAddress? (s : Sprite) (height table row : Nat) : Option Nat :=
  if height = 16 then
    let pair := s.tile.toNat % 2 * 0x1000 + s.tile.toNat / 2 * 2 * 16
    if 8 ≤ row then do
      let row ← row.psub 8
      patternCell? (pair + 16 + row)
    else patternCell? (pair + row)
  else patternCell? (table + s.tile.toNat * 16 + row)

/-- The strip of a sprite. -/
def Sprite.strip? (s : Sprite) (board : Board) (height table line : Nat) : Option Strip := do
  let row ← s.patternRow? height line
  let low ← s.patternAddress? height table row
  let high ← patternCell? (low + 8)
  some {
    x := s.x.toNat
    attributes := s.attributes
    low := board.readPpu low
    high := board.readPpu high }

/-- The strips of this line's sprites.  There are eight slots for them. -/
def strips? (p : Ppu) (board : Board) : Option (List Strip) := do
  let _ ← fits? (spritesPerLine + 1) p.lineSprites.sprites.length
  p.lineSprites.sprites.mapM fun s =>
    s.strip? board p.lineSprites.height p.control.spriteTable p.raster.line

/-- The two bits of the pattern at column `x` of the screen. -/
def Strip.pattern? (s : Strip) (x : Nat) : Option UInt8 :=
  if s.x ≤ x ∧ x < s.x + 8 then do
    let column ← x.psub s.x
    let place ← (if s.attributes &&& 0x40 != 0 then some column else Nat.psub 7 column)
    let place ← fits? 8 place
    some ((s.low >>> UInt8.ofNat place &&& 0x01) + 2 * (s.high >>> UInt8.ofNat place &&& 0x01))
  else some 0

/-- The palette address of a pixel of the strip. -/
def Strip.colour? (s : Strip) (x : Nat) : Option UInt8 := do
  let pattern ← s.pattern? x
  some (0x10 ||| (s.attributes &&& 0x03) * 4 ||| pattern)

/-- The pixel at column `x` once the strips lie over the background pixel. -/
def overlayPixel? (strips : List Strip) (showLeft : Bool) (x : Nat) (pixel : UInt8) :
    Option UInt8 :=
  if unclipped showLeft x then do
    let found ← strips.findM? fun s => do
      let pattern ← s.pattern? x
      some (pattern != 0)
    match found with
    | none => some pixel
    | some s =>
      if Sprite.behind s.attributes && backgroundOpaque pixel then some pixel else s.colour? x
  else some pixel

/-- The pixels of a line with strips laid over it. -/
def overlay? (strips : List Strip) (showLeft : Bool) (pixels : Vector UInt8 256) :
    Option (Vector UInt8 256) :=
  if strips.isEmpty then some pixels
  else (Vector.finRange 256).mapM fun x : Fin 256 => do
    let pixel ← pixels[x.val]?
    overlayPixel? strips showLeft x pixel

/-- Whether a strip meets the background. -/
def meetsBackground? (s : Strip) (showLeft : Bool) (pixels : Vector UInt8 256) : Option Bool :=
  (List.range 8).anyM fun column =>
    let x := s.x + column
    if x < 255 then do
      let pixel ← pixels[x]?
      let pattern ← s.pattern? x
      some (unclipped showLeft x && pattern != 0 && backgroundOpaque pixel)
    else some false

/-- Whether sprite 0 meets the background in this line. -/
def hitsSpriteZero? (p : Ppu) (strips : List Strip) : Option Bool :=
  if p.lineSprites.zero && p.mask.background then
    match strips with
    | [] => some false
    | s :: _ => meetsBackground? s p.mask.spritesLeft p.line
  else some false

/-- Lay this line's sprites over its background. -/
def drawSprites? (p : Ppu) (board : Board) : Option Ppu := do
  let strips ← p.strips? board
  let hit ← p.hitsSpriteZero? strips
  let line ← overlay? strips p.mask.spritesLeft p.line
  some { p with
    status := if hit then p.status.setSpriteZeroHit else p.status
    line }

/-- Sprites of eight rows have one of the two pattern tables. -/
theorem Control.spriteTable_cases (c : Control) : c.spriteTable = 0 ∨ c.spriteTable = 0x1000 := by
  unfold spriteTable
  split
  · exact .inr rfl
  · exact .inl rfl

section Strips

variable {s : Sprite} {height line : Nat}

/-- A sprite that crosses the line has a row there. -/
theorem patternRow?_eq (h₁ : s.top ≤ line) (h₂ : line < s.top + height) :
    s.patternRow? height line = some (s.patternRow height line) := by
  unfold Sprite.patternRow? Sprite.patternRow
  rw [psub_eq h₁, psub_eq (by omega : 1 ≤ height)]
  simp only [Option.bind_eq_bind, Option.bind_some]
  rw [psub_eq (by omega)]
  split <;> rfl

/-- The row of a sprite that is looked up is one of its rows, also where it is turned upside
down. -/
theorem patternRow_lt (h₁ : s.top ≤ line) (h₂ : line < s.top + height) :
    s.patternRow height line < height := by
  unfold Sprite.patternRow
  split <;> omega

/-- The patterns of sprites lie where patterns are. -/
theorem patternAddress_lt {table row : Nat} (ht : table = 0 ∨ table = 0x1000)
    (hr : row < height) (hh : height = 8 ∨ height = 16) :
    s.patternAddress height table row + 8 < 0x2000 := by
  have hs := s.tile.toNat_lt
  unfold Sprite.patternAddress
  split <;> omega

/-- The lower half of a tall sprite is the tile after its upper half. -/
theorem patternAddress_of_le {table row : Nat} (h₁ : 8 ≤ row) (h₂ : row < 16) :
    s.patternAddress 16 table row =
      s.tile.toNat % 2 * 0x1000 + s.tile.toNat / 2 * 2 * 16 + 16 + (row - 8) := by
  have hq : row / 8 = 1 := by omega
  have hr : row % 8 = row - 8 := by omega
  rw [Sprite.patternAddress, if_pos rfl, hq, hr]
  omega

/-- The upper half of a sprite of sixteen rows is its even tile, in the table that its lowest bit
names. -/
theorem patternAddress_of_lt {table row : Nat} (h : row < 8) :
    s.patternAddress 16 table row =
      s.tile.toNat % 2 * 0x1000 + s.tile.toNat / 2 * 2 * 16 + row := by
  rw [Sprite.patternAddress, if_pos rfl, Nat.div_eq_of_lt h, Nat.mod_eq_of_lt h, Nat.add_zero]

/-- The row that is looked up lies within the pattern tables, for both heights. -/
theorem patternAddress?_eq {table row : Nat} (ht : table = 0 ∨ table = 0x1000)
    (hr : row < height) (hh : height = 8 ∨ height = 16) :
    s.patternAddress? height table row = some (s.patternAddress height table row) := by
  have ha : s.patternAddress height table row < 0x2000 :=
    Nat.lt_of_le_of_lt (Nat.le_add_right _ 8) (patternAddress_lt ht hr hh)
  unfold Sprite.patternAddress?
  split
  · next h₁₆ =>
    subst h₁₆
    dsimp only
    split
    · next h₈ =>
      rw [patternAddress_of_le h₈ hr] at ha ⊢
      rw [psub_eq h₈]
      exact patternCell?_eq ha
    · next h₈ =>
      rw [patternAddress_of_lt (Nat.lt_of_not_le h₈)] at ha ⊢
      exact patternCell?_eq ha
  · next h₁₆ =>
    rw [Sprite.patternAddress, if_neg h₁₆] at ha ⊢
    exact patternCell?_eq ha

/-- A sprite that crosses the line has a strip of it. -/
theorem strip?_eq {table : Nat} (ht : table = 0 ∨ table = 0x1000) (hh : height = 8 ∨ height = 16)
    (h₁ : s.top ≤ line) (h₂ : line < s.top + height) (board : Board) :
    s.strip? board height table line = some (s.strip board height table line) := by
  have hr := patternRow_lt h₁ h₂
  unfold Sprite.strip? Sprite.strip
  simp only [patternRow?_eq h₁ h₂, patternAddress?_eq ht hr hh,
    patternCell?_eq (patternAddress_lt ht hr hh), Option.bind_eq_bind, Option.bind_some]

end Strips

/-- Where every element passes its check, so does the list. -/
theorem mapM_eq {α β : Type} {f : α → Option β} {g : α → β} {l : List α}
    (h : ∀ a ∈ l, f a = some (g a)) : l.mapM f = some (l.map g) := by
  induction l with
  | nil => rfl
  | cons a l ih =>
    rw [List.mapM_cons, h a List.mem_cons_self, ih fun b hb => h b (List.mem_cons_of_mem a hb)]
    rfl

/-- The strips of all sprites of the line: the search has found only sprites that cross it. -/
theorem strips?_eq {p : Ppu} (hn : p.lineSprites.sprites.length ≤ 8)
    (hc : p.lineSprites.Cross p.raster.line) (board : Board) :
    p.strips? board = some (p.strips board) := by
  unfold strips? strips
  rw [fits?_eq (show _ < spritesPerLine + 1 from Nat.lt_succ_of_le hn)]
  exact mapM_eq fun s hs =>
    strip?_eq p.control.spriteTable_cases hc.height (hc.top_le s hs) (hc.line_lt s hs) board

/-- A pixel of a strip is at most seven columns in, so the shift is in range. -/
theorem Strip.pattern?_eq (s : Strip) (x : Nat) : s.pattern? x = some (s.pattern x) := by
  unfold Strip.pattern? Strip.pattern
  split
  · next hx =>
    rw [psub_eq hx.1]
    simp only [Option.bind_eq_bind, Option.bind_some]
    rw [psub_eq (by omega)]
    split
    · simp only [Option.bind_some, fits?_eq (by omega : x - s.x < 8)]
    · simp only [Option.bind_some, fits?_eq (by omega : 7 - (x - s.x) < 8)]
  · rfl

/-- The palette of a sprite is one of the upper four, so its colour is a byte. -/
theorem Strip.colour?_eq (s : Strip) (x : Nat) : s.colour? x = some (s.colour x) := by
  rw [colour?, pattern?_eq]
  rfl

/-- The first opaque strip decides the pixel; no check can fail on the way to it. -/
theorem overlayPixel?_eq (strips : List Strip) (showLeft : Bool) (x : Nat) (pixel : UInt8) :
    overlayPixel? strips showLeft x pixel = some (overlayPixel strips showLeft x pixel) := by
  unfold overlayPixel? overlayPixel
  simp only [Strip.pattern?_eq, Strip.colour?_eq, Option.bind_eq_bind, Option.bind_some]
  rw [show (strips.findM? fun s => some (s.pattern x != 0)) =
    some (strips.find? (·.opaqueAt x)) from
    List.findM?_pure _ _, Option.bind_some]
  split
  · cases strips.find? (·.opaqueAt x) with
    | none => rfl
    | some s =>
      dsimp only
      split <;> rfl
  · rfl

/-- All 256 pixels of the line, by `Strip.colour?_eq` for each of them. -/
theorem overlay?_eq (strips : List Strip) (showLeft : Bool) (pixels : Vector UInt8 256) :
    overlay? strips showLeft pixels = some (overlay strips showLeft pixels) := by
  unfold overlay? overlay
  split
  · rfl
  · have hx (x : Fin 256) : (do
        let pixel ← pixels[x.val]?
        overlayPixel? strips showLeft x pixel) =
          some (overlayPixel strips showLeft x pixels[x.val]) := by
      rw [Vector.getElem?_eq_getElem x.isLt]
      exact overlayPixel?_eq strips showLeft x _
    simp only [hx]
    refine (Vector.mapM_pure _).trans (congrArg some ?_)
    ext x hx
    simp

/-- The search for a column in which a strip meets the background looks at columns 0 to 254. -/
theorem meetsBackground?_eq (s : Strip) (showLeft : Bool) (pixels : Vector UInt8 256) :
    meetsBackground? s showLeft pixels = some (meetsBackground s showLeft pixels) := by
  unfold meetsBackground? meetsBackground
  refine Eq.trans ?_ List.anyM_pure
  congr 1
  funext column
  dsimp only
  split
  · next hx =>
    rw [Vector.getElem?_eq_getElem (Nat.lt_succ_of_lt hx), Strip.pattern?_eq]
    rfl
  · rfl

/-- The hit is looked for in the strip of sprite zero only. -/
theorem hitsSpriteZero?_eq (p : Ppu) (strips : List Strip) :
    p.hitsSpriteZero? strips = some (p.hitsSpriteZero strips) := by
  unfold hitsSpriteZero? hitsSpriteZero
  split
  · next h =>
    rw [h, Bool.true_and]
    cases strips with
    | nil => rfl
    | cons s strips => exact meetsBackground?_eq s _ _
  · next h =>
    rw [Bool.not_eq_true] at h
    rw [h, Bool.false_and]

/-- So the sprites of a line are drawn with no check failing, as long as there are at most eight of
them and each crosses the line. -/
theorem drawSprites?_eq {p : Ppu} (hn : p.lineSprites.sprites.length ≤ 8)
    (hc : p.lineSprites.Cross p.raster.line) (board : Board) :
    p.drawSprites? board = some (p.drawSprites board) := by
  unfold drawSprites? drawSprites
  simp only [strips?_eq hn hc, hitsSpriteZero?_eq, overlay?_eq, Option.bind_eq_bind,
    Option.bind_some]

end Ppu
end Famicom
