/-
# Where the picture unit stands

What the processor has set, where the raster is, and the three signals of the vertical blank make
up the standing of the picture unit.  Drawing neither looks at the rest to change it nor lets the
board have a say: the standing goes on by itself (`Ppu.standing_tick`), and an access of the
processor acts on it by itself (`Ppu.standing_read`, `Ppu.standing_write`).

So whatever is to be known about the raster, about the vertical blank and about NMIs can be found
out from the standing alone.
-/

import Famicom.Ppu.Dot
import Famicom.Ppu.Interface

namespace Famicom
namespace Ppu

namespace Status

/-- The overflow flag is bit 5 and the vertical blank is bit 7: raising the one leaves the other. -/
theorem vblank_setSpriteOverflow (s : Status) : s.setSpriteOverflow.vblank = s.vblank := by
  have e : (s.bits ||| 0x20) &&& 0x80 = s.bits &&& 0x80 := by
    rw [← UInt8.toNat_inj, UInt8.toNat_and, UInt8.toNat_or, Nat.and_or_distrib_right,
      UInt8.toNat_and]
    exact Nat.or_zero _
  rw [setSpriteOverflow, vblank, vblank, e]

/-- The hit of sprite zero is bit 6, so it leaves the vertical blank as well. -/
theorem vblank_setSpriteZeroHit (s : Status) : s.setSpriteZeroHit.vblank = s.vblank := by
  have e : (s.bits ||| 0x40) &&& 0x80 = s.bits &&& 0x80 := by
    rw [← UInt8.toNat_inj, UInt8.toNat_and, UInt8.toNat_or, Nat.and_or_distrib_right,
      UInt8.toNat_and]
    exact Nat.or_zero _
  rw [setSpriteZeroHit, vblank, vblank, e]

/-- The first dot of the pre-render line lowers the vertical blank with the other two flags. -/
theorem vblank_clear (s : Status) : s.clear.vblank = false := by
  have e : s.bits &&& 0x1F &&& 0x80 = 0 := by rw [UInt8.and_assoc]; exact UInt8.and_zero
  rw [clear, vblank, e]
  rfl

/-- A read of the status lowers the vertical blank. -/
theorem vblank_clearVblank (s : Status) : s.clearVblank.vblank = false := by
  have e : s.bits &&& 0x7F &&& 0x80 = 0 := by rw [UInt8.and_assoc]; exact UInt8.and_zero
  rw [clearVblank, vblank, e]
  rfl

/-- The vertical blank is up once it has been raised, whatever the other bits hold. -/
theorem vblank_setVblank (s : Status) : s.setVblank.vblank = true := by
  have e : (s.bits ||| 0x80) &&& 0x80 = 0x80 := by
    rw [← UInt8.toNat_inj, UInt8.toNat_and, UInt8.toNat_or]
    refine Nat.eq_of_testBit_eq fun i => ?_
    rw [Nat.testBit_and, Nat.testBit_or]
    cases Nat.testBit (0x80 : UInt8).toNat i
    · exact Bool.and_false _
    · rw [Bool.or_true, Bool.and_true]
  rw [setVblank, vblank, e]
  rfl

end Status

/-! ### The part that goes by itself

The raster, the flag of the vertical blank, the requests and the registers do not hang on what is
drawn.  This part of the picture unit can be run alone, for a whole frame if need be. -/

/-- What the processor has set, the raster, and the signals of the vertical blank. -/
structure Standing where
  control : Control := {}
  mask : Mask := {}
  /-- Where the picture starts. -/
  start : Nat := 0
  fineX : Nat := 0
  toggle : Bool := false
  raster : Raster := {}
  vblank : Bool := false
  frameReady : Bool := false
  nmiPending : Bool := false
deriving DecidableEq, Repr

/-- The standing of a picture unit. -/
def standing (p : Ppu) : Standing where
  control := p.control
  mask := p.mask
  start := p.scroll.t
  fineX := p.scroll.fineX
  toggle := p.scroll.toggle
  raster := p.raster
  vblank := p.status.vblank
  frameReady := p.frameReady
  nmiPending := p.nmiPending

theorem raster_standing (p : Ppu) : p.standing.raster = p.raster := rfl

theorem mask_standing (p : Ppu) : p.standing.mask = p.mask := rfl

namespace Standing

/-- Whether this is the dot in which the vertical blank starts. -/
def startsVblank (s : Standing) : Bool := s.raster.line == vblankLine && s.raster.dot == 1

/-- Whether this is the dot in which the flags are lowered. -/
def endsVblank (s : Standing) : Bool := s.raster.line == preRenderLine && s.raster.dot == 1

/-- One dot. -/
def tick (s : Standing) : Standing :=
  { s with
    vblank := s.startsVblank || s.vblank && !s.endsVblank
    frameReady := s.frameReady || s.startsVblank
    nmiPending := s.nmiPending || s.startsVblank && s.control.nmiEnabled
    raster := s.raster.advance s.mask.rendering }

/-- A read of a register. -/
def read (s : Standing) (register : Nat) : Standing :=
  if register = 2 then { s with vblank := false, toggle := false } else s

/-- Whether a write to a register requests an NMI: it enables the NMI in the vertical blank. -/
def requestsNmi (s : Standing) (register : Nat) (v : UInt8) : Bool :=
  register == 0 && !s.control.nmiEnabled && (Control.mk v).nmiEnabled && s.vblank

/-- The registers of the double writes, without the place that is being fetched. -/
def scroll (s : Standing) : Scroll where
  t := s.start
  fineX := s.fineX
  toggle := s.toggle

/-- The standing with what a write has made of those registers. -/
def withScroll (s : Standing) (c : Scroll) : Standing :=
  { s with start := c.t, fineX := c.fineX, toggle := c.toggle }

/-- A write to a register. -/
def write (s : Standing) (register : Nat) (v : UInt8) : Standing :=
  match register with
  | 0 =>
    { s.withScroll (s.scroll.setNametable (Control.mk v).nametable) with
      control := ⟨v⟩
      nmiPending := s.nmiPending || s.requestsNmi 0 v }
  | 1 => { s with mask := ⟨v⟩ }
  | 5 => s.withScroll (s.scroll.writeScroll v)
  | 6 => s.withScroll (s.scroll.writeAddress v)
  | _ => s

end Standing

/-! ### A dot and the standing -/

/-- The search for sprites sets the overflow flag and the sprites of the line, none of which is part
of the standing. -/
theorem standing_evaluateSprites (p : Ppu) : p.evaluateSprites.standing = p.standing := by
  unfold evaluateSprites
  split
  · dsimp only [standing]
    split
    · rw [Status.vblank_setSpriteOverflow]
    · rfl
  · rfl

/-- A fetch of the background fills the latches and the shift registers only. -/
theorem standing_fetchBackground (p : Ppu) (board : Board) :
    (p.fetchBackground board).standing = p.standing := by
  unfold fetchBackground
  dsimp only
  split <;> rfl

/-- The walk of the place being fetched moves `v`; the standing keeps `t`, where the picture
starts. -/
theorem standing_backgroundDot (p : Ppu) (board : Board) :
    (p.backgroundDot board).standing = p.standing := by
  have hf : (if fetchesIn p.raster.dot then p.fetchBackground board else p).standing =
      p.standing := by
    split
    · exact standing_fetchBackground p board
    · rfl
  unfold backgroundDot
  dsimp only
  generalize (if fetchesIn p.raster.dot then p.fetchBackground board else p) = q at hf ⊢
  split
  · exact hf
  · split
    · exact hf
    · split <;> exact hf

/-- Drawing the sprites may raise the hit of sprite zero, which is not part of the standing. -/
theorem standing_drawSprites (p : Ppu) (board : Board) :
    (p.drawSprites board).standing = p.standing := by
  unfold drawSprites
  dsimp only [standing]
  split
  · rw [Status.vblank_setSpriteZeroHit]
  · rfl

/-- A finished line goes to the frame, which is not part of the standing. -/
theorem standing_showLine (p : Ppu) : p.showLine.standing = p.standing := by
  unfold showLine
  split <;> rfl

/-- A visible dot before its pixel is drawn. -/
def fetched (p : Ppu) (board : Board) : Ppu :=
  let p := if p.raster.dot = 1 then p.evaluateSprites else p
  if p.mask.rendering then p.backgroundDot board else p

/-- A visible dot draws the pixel of a column. -/
theorem column_lt {d : Nat} (h : 1 ≤ d ∧ d ≤ 256) : d - 1 < 256 :=
  Nat.sub_one_lt_of_le h.1 h.2

/-- A visible dot with its pixel, before the sprites are laid over the line. -/
def plotted (p : Ppu) (board : Board) (h : p.raster.dot - 1 < 256) : Ppu :=
  let q := p.fetched board
  let pixel := q.backgroundPixel (p.raster.dot - 1)
  { q with line := q.line.set (p.raster.dot - 1) pixel h }

/-- Before dot 256 a visible dot of a picture unit plots one pixel and does nothing else. -/
theorem visibleDot_of_lt {p : Ppu} (h₁ : 1 ≤ p.raster.dot) (h₂ : p.raster.dot < 256)
    (board : Board) :
    p.visibleDot board = p.plotted board (column_lt ⟨h₁, Nat.le_of_lt h₂⟩) := by
  have h : 1 ≤ p.raster.dot ∧ p.raster.dot ≤ 256 := ⟨h₁, Nat.le_of_lt h₂⟩
  unfold visibleDot
  dsimp only
  rw [dif_pos h, if_neg (Nat.ne_of_lt h₂)]
  rfl

/-- At dot 256 the last pixel is plotted, the sprites are drawn over the line, and the line is
shown. -/
theorem visibleDot_last {p : Ppu} (h : p.raster.dot = 256) (board : Board) :
    p.visibleDot board =
      let q := p.plotted board (column_lt (by omega))
      (if q.mask.sprites then q.drawSprites board else q).showLine := by
  have h' : 1 ≤ p.raster.dot ∧ p.raster.dot ≤ 256 := by omega
  unfold visibleDot
  dsimp only
  rw [dif_pos h', if_pos h]
  rfl

/-- Outside dots 1 to 256 a visible line fetches and plots nothing. -/
theorem visibleDot_of_not {p : Ppu} (h : ¬(1 ≤ p.raster.dot ∧ p.raster.dot ≤ 256))
    (board : Board) : p.visibleDot board = p.fetched board := by
  unfold visibleDot
  dsimp only
  rw [dif_neg h]
  rfl

/-- The fetches of a dot, whether or not rendering is on, leave the standing. -/
theorem standing_fetched (p : Ppu) (board : Board) :
    (p.fetched board).standing = p.standing := by
  have he : (if p.raster.dot = 1 then p.evaluateSprites else p).standing = p.standing := by
    split
    · exact standing_evaluateSprites p
    · rfl
  unfold fetched
  dsimp only
  generalize (if p.raster.dot = 1 then p.evaluateSprites else p) = q at he ⊢
  split
  · exact (standing_backgroundDot q board).trans he
  · exact he

/-- So a dot of a visible line leaves the standing, in each of its three cases. -/
theorem standing_visibleDot (p : Ppu) (board : Board) :
    (p.visibleDot board).standing = p.standing := by
  have hf := standing_fetched p board
  by_cases h : 1 ≤ p.raster.dot ∧ p.raster.dot ≤ 256
  · have hp : (p.plotted board (column_lt h)).standing = p.standing := hf
    rcases Nat.lt_or_eq_of_le h.2 with h₂ | h₂
    · rw [visibleDot_of_lt h.1 h₂]
      exact hp
    · rw [visibleDot_last h₂]
      dsimp only
      rw [standing_showLine]
      split
      · rw [standing_drawSprites]
        exact hp
      · exact hp
  · rw [visibleDot_of_not h]
    exact hf

/-- A dot of the pre-render line changes one field: its first dot lowers the vertical blank. -/
theorem standing_preRenderDot (p : Ppu) (board : Board) :
    (p.preRenderDot board).standing =
      { p.standing with vblank := p.standing.vblank && !(p.raster.dot == 1) } := by
  have hc : (if p.raster.dot = 1 then { p with status := p.status.clear } else p).standing =
      { p.standing with vblank := p.standing.vblank && !(p.raster.dot == 1) } := by
    split
    · rename_i h
      simp [standing, Status.vblank_clear, h]
    · rename_i h
      simp [standing, h]
  unfold preRenderDot
  dsimp only
  generalize (if p.raster.dot = 1 then { p with status := p.status.clear } else p) = q at hc ⊢
  split
  · rw [standing_backgroundDot]
    exact hc
  · exact hc

/-- The start of the vertical blank raises its flag, completes the frame, and requests an NMI where
the processor has enabled it. -/
theorem standing_startVblank (p : Ppu) :
    p.startVblank.standing =
      { p.standing with
        vblank := true
        frameReady := true
        nmiPending := p.nmiPending || p.control.nmiEnabled } := by
  simp only [standing, startVblank, Status.vblank_setVblank]

/-- What a dot draws, on any line, leaves of the standing what `Standing.tick` says, before the
raster goes on. -/
theorem standing_draw (p : Ppu) (board : Board) :
    (p.draw board).standing = { p.standing.tick with raster := p.raster } := by
  unfold draw
  split
  · -- a visible line: neither signal moves
    rename_i h
    have h₁ : (p.raster.line == vblankLine) = false := by
      rw [beq_eq_false_iff_ne]; unfold visibleLines at h; simp only [vblankLine]; omega
    have h₂ : (p.raster.line == preRenderLine) = false := by
      rw [beq_eq_false_iff_ne]; unfold visibleLines at h; simp only [preRenderLine]; omega
    rw [standing_visibleDot]
    simp [standing, Standing.tick, Standing.startsVblank, Standing.endsVblank, h₁, h₂]
  · split
    · rename_i h
      rw [standing_preRenderDot]
      simp [standing, Standing.tick, Standing.startsVblank, Standing.endsVblank, h,
        vblankLine, preRenderLine]
    · split
      · rename_i h
        rw [standing_startVblank]
        simp [standing, Standing.tick, Standing.startsVblank, h]
      · rename_i hp hv
        have hv' : (p.raster.line == vblankLine && p.raster.dot == 1) = false := by
          simpa using hv
        simp [standing, Standing.tick, Standing.startsVblank, Standing.endsVblank, hv', hp]

/-- The raster goes on after the dot and not while it is drawn. -/
theorem raster_draw (p : Ppu) (board : Board) : (p.draw board).raster = p.raster :=
  congrArg Standing.raster (standing_draw p board)

/-- **The standing goes on by itself.** -/
theorem standing_tick (p : Ppu) (board : Board) :
    (p.tick board).standing = p.standing.tick := by
  have hm : (p.draw board).mask = p.mask := congrArg Standing.mask (standing_draw p board)
  have ht : (p.tick board).standing =
      { (p.draw board).standing with
        raster := (p.draw board).raster.advance (p.draw board).mask.rendering } := rfl
  rw [ht, standing_draw, hm, raster_draw]
  rfl

/-- A dot takes the raster on as if nothing else was there: only whether rendering is on is
asked. -/
theorem raster_tick (p : Ppu) (board : Board) :
    (p.tick board).raster = p.raster.advance p.mask.rendering :=
  congrArg Standing.raster (standing_tick p board)

/-! ### Accesses and the standing -/

/-- **A read acts on the standing by itself.** -/
theorem standing_read (p : Ppu) (board : Board) (register : Nat) :
    (p.read board register).2.standing = p.standing.read register := by
  unfold read Standing.read
  split
  · rw [if_pos rfl]
    simp only [readStatus, standing, Status.vblank_clearVblank, Scroll.clearToggle]
  · rfl
  · unfold readData
    dsimp only
    split <;> rfl
  · rename_i h _ _
    rw [if_neg h]

theorem standing_writeOam (p : Ppu) (v : UInt8) : (p.writeOam v).standing = p.standing := rfl

/-- A write to the data port goes to the board or to the palette, and moves `v`. -/
theorem standing_writeData (p : Ppu) (board : Board) (v : UInt8) :
    (p.writeData board v).1.standing = p.standing := by
  unfold writeData
  dsimp only
  split <;> rfl

/-- A write to the first register, seen from the standing: the table the picture starts in, and an
NMI where it enables one during the vertical blank. -/
theorem standing_writeControl (p : Ppu) (v : UInt8) :
    (p.writeControl v).standing = p.standing.write 0 v := by
  simp [writeControl, standing, Standing.write, Standing.withScroll, Standing.scroll,
    Standing.requestsNmi, Scroll.setNametable]

/-- A write to the scroll register moves where the picture starts, and the toggle. -/
theorem standing_writeScroll (p : Ppu) (v : UInt8) :
    ({ p with scroll := p.scroll.writeScroll v } : Ppu).standing = p.standing.write 5 v := by
  by_cases h : p.scroll.toggle = true <;>
    simp [standing, Standing.write, Standing.withScroll, Standing.scroll, Scroll.writeScroll, h]

/-- A write to the address register moves where the picture starts, and the toggle; the second one
copies it to `v`, which is not part of the standing. -/
theorem standing_writeAddress (p : Ppu) (v : UInt8) :
    ({ p with scroll := p.scroll.writeAddress v } : Ppu).standing = p.standing.write 6 v := by
  by_cases h : p.scroll.toggle = true <;>
    simp [standing, Standing.write, Standing.withScroll, Standing.scroll, Scroll.writeAddress, h]

/-- All eight registers together: the standing after a write is found from the standing before
it. -/
theorem standing_writeOwn (p : Ppu) (register : Nat) (v : UInt8) :
    (p.writeOwn register v).standing = p.standing.write register v := by
  unfold writeOwn
  split
  · exact standing_writeControl p v
  · rfl
  · rfl
  · rfl
  · exact standing_writeScroll p v
  · exact standing_writeAddress p v
  · rename_i h₀ h₁ h₃ h₄ h₅ h₆
    unfold Standing.write
    split
    · exact absurd rfl h₀
    · exact absurd rfl h₁
    · exact absurd rfl h₅
    · exact absurd rfl h₆
    · rfl

/-- **A write acts on the standing by itself.** -/
theorem standing_write (p : Ppu) (board : Board) (register : Nat) (v : UInt8) :
    (p.write board register v).1.standing = p.standing.write register v := by
  unfold write
  dsimp only
  split
  · rename_i h
    rw [standing_writeData, h]
    rfl
  · exact standing_writeOwn { p with latch := v } register v

end Ppu
end Famicom
