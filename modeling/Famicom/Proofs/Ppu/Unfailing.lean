/-
# Nothing that the picture unit does fails

A dot and the accesses of the processor in machine arithmetic.  In a well-formed state a dot does
not fail and gives what it gives without bounds (`Ppu.WellFormed.tick?_eq`), and an access never
fails (`Ppu.read?_eq`, `Ppu.write?_eq`); so in no state that the picture unit can come to does
anything fail (`Ppu.wellFormed_and_unfailing`).
-/

import Famicom.Proofs.Board.Blank
import Famicom.Proofs.Ppu.Checked

namespace Famicom
namespace Ppu

/-! ### Dots -/

/-- The byte at a palette address. -/
def Palette.read? (p : Palette) (address : Nat) : Option UInt8 := p.cells[cell address]?

/-- The colour of a pixel whose palette address is given. -/
def Palette.colour? (p : Palette) (grayscale : Bool) (pixel : UInt8) : Option UInt32 := do
  let entry ← p.read? pixel.toNat
  let shade := entry &&& if grayscale then 0x30 else 0x3F
  colours[shade.toNat]?

/-- Put the line that has been drawn on the screen. -/
def showLine? (p : Ppu) : Option Ppu := do
  let colours ← p.line.mapM (p.palette.colour? p.mask.grayscale)
  let frame ← store? p.frame p.raster.line colours
  some { p with frame }

/-- A dot of a visible line before its pixel is drawn. -/
def fetched? (p : Ppu) (board : Board) : Option Ppu := do
  let p ← (if p.raster.dot = 1 then p.evaluateSprites? else some p)
  if p.mask.rendering then p.backgroundDot? board else some p

/-- A dot of a visible line with its pixel. -/
def plotted? (p : Ppu) (board : Board) : Option Ppu := do
  let q ← p.fetched? board
  let column ← p.raster.dot.psub 1
  let pixel ← q.backgroundPixel? column
  let line ← store? q.line column pixel
  some { q with line }

/-- A dot of a visible line. -/
def visibleDot? (p : Ppu) (board : Board) : Option Ppu :=
  if 1 ≤ p.raster.dot ∧ p.raster.dot ≤ 256 then do
    let q ← p.plotted? board
    if p.raster.dot = 256 then do
      let q ← (if q.mask.sprites then q.drawSprites? board else some q)
      q.showLine?
    else some q
  else p.fetched? board

/-- A dot of the last line. -/
def preRenderDot? (p : Ppu) (board : Board) : Option Ppu :=
  let p := if p.raster.dot = 1 then { p with status := p.status.clear } else p
  if p.mask.rendering then p.backgroundDot? board else some p

/-- What this dot does, apart from going on to the next. -/
def draw? (p : Ppu) (board : Board) : Option Ppu :=
  if p.raster.line < visibleLines then p.visibleDot? board
  else if p.raster.line = preRenderLine then p.preRenderDot? board
  else if p.raster.line = vblankLine ∧ p.raster.dot = 1 then some p.startVblank
  else some p

/-- The next dot. -/
def Raster.advance? (r : Raster) (rendering : Bool) : Option Raster := do
  let dot ← word? (r.dot + 1)
  if dotsPerLine ≤ dot || r.skipsDot rendering then do
    let line ← word? (r.line + 1)
    if linesPerFrame ≤ line then some { line := 0, dot := 0, oddFrame := !r.oddFrame }
    else some { r with line, dot := 0 }
  else some { r with dot }

/-- One dot. -/
def tick? (p : Ppu) (board : Board) : Option Ppu := do
  let p ← p.draw? board
  let raster ← p.raster.advance? p.mask.rendering
  some { p with raster }

/-- An address is cut to five bits and folded, so it names one of the 32 cells. -/
theorem Palette.read?_eq (p : Palette) (address : Nat) : p.read? address = some (p.read address) :=
  Vector.getElem?_eq_getElem (cell_lt address)

/-- There are 64 colours, and a shade is one of them. -/
theorem Palette.colour?_eq (p : Palette) (grayscale : Bool) (pixel : UInt8) :
    p.colour? grayscale pixel = some (p.colour grayscale pixel) := by
  unfold colour? colour
  rw [read?_eq]
  simp only [Option.bind_eq_bind, Option.bind_some]
  have hs : (p.read pixel.toNat &&& if grayscale then 0x30 else 0x3F).toNat < 64 := by
    split
    · exact Nat.lt_of_le_of_lt (UInt8.le_iff_toNat_le.1 (and_le_mask _ 0x30)) (by decide)
    · exact Nat.lt_of_le_of_lt (UInt8.le_iff_toNat_le.1 (and_le_mask _ 0x3F)) (by decide)
  rw [Vector.getElem?_eq_getElem hs]
  simp only [Nat.mod_eq_of_lt hs]

/-- The screen has a row for each of the 240 visible lines. -/
theorem showLine?_eq {p : Ppu} (h : p.raster.line < 240) : p.showLine? = some p.showLine := by
  have hc : p.line.mapM (p.palette.colour? p.mask.grayscale) = some p.lineColours := by
    rw [funext (p.palette.colour?_eq p.mask.grayscale)]
    exact Vector.mapM_pure _
  unfold showLine? showLine
  rw [hc, dif_pos h]
  simp only [Option.bind_eq_bind, Option.bind_some, store?_eq _ h]

/-- A dot of the pre-render line. -/
theorem preRenderDot?_eq {p : Ppu} (hv : p.scroll.v < 32768) (board : Board) :
    p.preRenderDot? board = some (p.preRenderDot board) := by
  have hq : (if p.raster.dot = 1 then { p with status := p.status.clear } else p).scroll.v <
      32768 := by
    split <;> exact hv
  unfold preRenderDot? preRenderDot
  dsimp only
  generalize (if p.raster.dot = 1 then { p with status := p.status.clear } else p) = q at hq ⊢
  split
  · exact backgroundDot?_eq hq board
  · rfl

/-- The fetches of a dot, with the search for sprites at dot 1. -/
theorem fetched?_eq {p : Ppu} (hv : p.scroll.v < 32768) (board : Board) :
    p.fetched? board = some (p.fetched board) := by
  have he : (if p.raster.dot = 1 then p.evaluateSprites? else some p) =
      some (if p.raster.dot = 1 then p.evaluateSprites else p) := by
    split
    · exact evaluateSprites?_eq p
    · rfl
  have hq : (if p.raster.dot = 1 then p.evaluateSprites else p).scroll.v < 32768 := by
    have hf : p.evaluateSprites.scroll.v = p.scroll.v := congrArg Fetch.v (fetch_evaluateSprites p)
    split
    · rw [hf]
      exact hv
    · exact hv
  unfold fetched? fetched
  rw [he]
  dsimp only [Option.bind_eq_bind, Option.bind_some]
  generalize (if p.raster.dot = 1 then p.evaluateSprites else p) = q at hq ⊢
  split
  · exact backgroundDot?_eq hq board
  · rfl

/-- A pixel is plotted in column `dot - 1`, which is one of 256. -/
theorem plotted?_eq {p : Ppu} (hv : p.scroll.v < 32768) (hf : p.scroll.fineX ≤ 7)
    (h : 1 ≤ p.raster.dot ∧ p.raster.dot ≤ 256) (board : Board) :
    p.plotted? board = some (p.plotted board (column_lt h)) := by
  have hq : (p.fetched board).scroll.fineX = p.scroll.fineX :=
    congrArg Standing.fineX (standing_fetched p board)
  unfold plotted? plotted
  rw [fetched?_eq hv, psub_eq h.1]
  simp only [Option.bind_eq_bind, Option.bind_some]
  rw [backgroundPixel?_eq (by rw [hq]; exact hf)]
  simp only [Option.bind_some, store?_eq _ (column_lt h)]

/-- **A visible dot does not fail.**  In the last one the sprites are those that cross the line. -/
theorem WellFormed.visibleDot?_eq {p : Ppu} (h : p.WellFormed) (hl : p.raster.line < visibleLines)
    (board : Board) : p.visibleDot? board = some (p.visibleDot board) := by
  have hv := Nat.lt_succ_of_le h.v_le
  unfold visibleDot?
  split
  · next hd =>
    rw [plotted?_eq hv h.fineX_le hd]
    simp only [Option.bind_eq_bind, Option.bind_some]
    split
    · -- the last dot of a row draws the sprites that dot 1 has found
      next hd₂ =>
      have hr : (p.plotted board (column_lt hd)).raster = p.raster :=
        congrArg Standing.raster (standing_fetched p board)
      have hs : (p.plotted board (column_lt hd)).lineSprites = p.lineSprites :=
        lineSprites_fetched (by omega) board
      rw [visibleDot_last hd₂]
      dsimp only
      generalize p.plotted board (column_lt hd) = q at hr hs
      have hn : q.lineSprites.sprites.length ≤ 8 := by
        rw [hs]
        exact h.sprites_le
      have hc : q.lineSprites.Cross q.raster.line := by
        rw [hs, hr]
        exact h.cross hl (by omega) (by omega)
      have hlq : q.raster.line < 240 := by
        rw [hr]
        exact hl
      split
      · rw [drawSprites?_eq hn hc]
        exact showLine?_eq hlq
      · exact showLine?_eq hlq
    · next hd₂ => rw [visibleDot_of_lt hd.1 (Nat.lt_of_le_of_ne hd.2 hd₂)]
  · next hd => rw [visibleDot_of_not hd, fetched?_eq hv]

/-- What a dot draws, on a visible line, in the pre-render line or in the vertical blank. -/
theorem WellFormed.draw?_eq {p : Ppu} (h : p.WellFormed) (board : Board) :
    p.draw? board = some (p.draw board) := by
  unfold draw? draw
  split
  · next hl => exact h.visibleDot?_eq hl board
  · split
    · exact preRenderDot?_eq (Nat.lt_succ_of_le h.v_le) board
    · split <;> rfl

/-- The raster goes on within 341 dots and 262 lines. -/
theorem Raster.advance?_eq {r : Raster} (hd : r.dot ≤ 340) (hl : r.line ≤ 261) (rendering : Bool) :
    r.advance? rendering = some (r.advance rendering) := by
  unfold advance? advance nextLine
  rw [word?_eq (by omega), word?_eq (by omega)]
  simp only [Option.bind_eq_bind, Option.bind_some]
  split
  · split <;> rfl
  · rfl

/-- **A dot does not fail.** -/
theorem WellFormed.tick?_eq {p : Ppu} (h : p.WellFormed) (board : Board) :
    p.tick? board = some (p.tick board) := by
  have hd : (p.draw board).raster.dot ≤ 340 := by
    rw [raster_draw]
    exact h.dot_le
  have hl : (p.draw board).raster.line ≤ 261 := by
    rw [raster_draw]
    exact h.line_le
  unfold tick?
  rw [h.draw?_eq]
  simp only [Option.bind_eq_bind, Option.bind_some, Raster.advance?_eq hd hl]
  rfl

/-! ### Registers -/

/-- Read memory. -/
def readData? (p : Ppu) (board : Board) : Option (UInt8 × Ppu) :=
  let address := p.address
  if inPalette address then do
    let value ← p.palette.read? address
    let under ← address.psub 0x1000
    some (value, { p with readBuffer := board.readPpu under }.advanceAddress)
  else some (p.readBuffer, { p with readBuffer := board.readPpu address }.advanceAddress)

/-- Read a register. -/
def read? (p : Ppu) (board : Board) (register : Nat) : Option (UInt8 × Ppu) :=
  match register with
  | 2 => some p.readStatus
  | 4 => do
    let value ← p.oam[p.oamAddress.toNat]?
    some (value, p)
  | 7 => p.readData? board
  | _ => some (p.latch, p)

/-- Write a byte of object memory. -/
def writeOam? (p : Ppu) (v : UInt8) : Option Ppu := do
  let oam ← store? p.oam p.oamAddress.toNat v
  some { p with oam, oamAddress := p.oamAddress + 1 }

/-- Write memory. -/
def writeData? (p : Ppu) (board : Board) (v : UInt8) : Option (Ppu × Board) :=
  let address := p.address
  if inPalette address then do
    let cells ← store? p.palette.cells (Palette.cell address) (v &&& 0x3F)
    some ({ p with palette := ⟨cells⟩ }.advanceAddress, board)
  else some (p.advanceAddress, board.writePpu address v)

/-- Write a register. -/
def write? (p : Ppu) (board : Board) (register : Nat) (v : UInt8) : Option (Ppu × Board) :=
  let p := { p with latch := v }
  match register with
  | 4 => do
    let p ← p.writeOam? v
    some (p, board)
  | 7 => p.writeData? board v
  | register => some (p.writeOwn register v, board)

/-- A read through the data port: of the palette, or of the board with a byte in between. -/
theorem readData?_eq (p : Ppu) (board : Board) : p.readData? board = some (p.readData board) := by
  unfold readData? readData
  dsimp only
  split
  · next ha =>
    have ha : 0x3F00 ≤ p.address := of_decide_eq_true ha
    rw [Palette.read?_eq, psub_eq (by omega)]
    rfl
  · rfl

/-- **A read does not fail.** -/
theorem read?_eq (p : Ppu) (board : Board) (register : Nat) :
    p.read? board register = some (p.read board register) := by
  unfold read?
  split
  · rfl
  · rw [Vector.getElem?_eq_getElem p.oamAddress.toNat_lt]
    rfl
  · exact readData?_eq p board
  · next h₂ h₄ h₇ =>
    unfold Ppu.read
    split
    · exact absurd rfl h₂
    · exact absurd rfl h₄
    · exact absurd rfl h₇
    · rfl

/-- The object memory has a cell for each address of a byte. -/
theorem writeOam?_eq (p : Ppu) (v : UInt8) : p.writeOam? v = some (p.writeOam v) := by
  unfold writeOam? writeOam
  rw [store?_eq _ p.oamAddress.toNat_lt]
  rfl

/-- A write through the data port. -/
theorem writeData?_eq (p : Ppu) (board : Board) (v : UInt8) :
    p.writeData? board v = some (p.writeData board v) := by
  unfold writeData? writeData
  dsimp only
  rw [store?_eq _ (Palette.cell_lt p.address)]
  split <;> rfl

/-- **A write does not fail.** -/
theorem write?_eq (p : Ppu) (board : Board) (register : Nat) (v : UInt8) :
    p.write? board register v = some (p.write board register v) := by
  unfold write? Ppu.write
  dsimp only
  split
  · rw [writeOam?_eq]
    rfl
  · exact writeData?_eq _ board v
  · next h₇ => rw [if_neg h₇]

/-- **What the picture unit keeps is within its bounds, and nothing that it does fails.**  So it is
in every state that it can come to, whatever boards its dots are drawn on and whatever the
processor does in between; a reset is the initial state.  The sprites that a line is drawn with
cross it, and so no difference falls below zero, no pattern is looked for beyond `$1FFF`, and no
index misses its array. -/
theorem wellFormed_and_unfailing {p : Ppu} (h : p.Reachable) :
    p.WellFormed ∧ (∀ board, p.tick? board = some (p.tick board)) ∧
      (∀ board register, p.read? board register = some (p.read board register)) ∧
      (∀ board register v, p.write? board register v = some (p.write board register v)) ∧
      ∀ v, p.writeOam? v = some (p.writeOam v) :=
  ⟨h.wellFormed, h.wellFormed.tick?_eq, p.read?_eq, p.write?_eq, p.writeOam?_eq⟩

/-- The second dot of a picture with background and sprites. -/
theorem wellFormed_and_unfailing_second :
    let p : Ppu := (({} : Ppu).write .blank 1 0x18).1.tick .blank
    p.Reachable ∧ p.WellFormed ∧ (∀ board, p.tick? board = some (p.tick board)) ∧
      (∀ board register, p.read? board register = some (p.read board register)) ∧
      (∀ board register v, p.write? board register v = some (p.write board register v)) ∧
      ∀ v, p.writeOam? v = some (p.writeOam v) := by
  intro p
  have h : p.Reachable := (Reachable.initial.write .blank 1 0x18).tick .blank
  exact ⟨h, wellFormed_and_unfailing h⟩

end Ppu
end Famicom
