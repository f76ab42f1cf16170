/-
# The states of the picture unit

Whatever the processor does with the registers, and on whatever boards the dots are drawn, the
numbers that the picture unit keeps stay within their bits (`Ppu.Reachable.bounded`): the start of
the picture has 15, the column in the tile has three, and the raster stays in the frame.
-/

import Famicom.Proofs.Ppu.Raster
import Famicom.Proofs.Ppu.Standing

namespace Famicom
namespace Ppu

/-- The numbers of a standing lie within their bits. -/
structure Standing.Bounded (s : Standing) : Prop where
  start_lt : s.start < 32768
  fineX_lt : s.fineX < 8
  line_lt : s.raster.line < linesPerFrame
  dot_lt : s.raster.dot < dotsPerLine

/-- A write of the scroll registers keeps the start and the column within their bits. -/
structure Scroll.Bounded (c : Scroll) : Prop where
  t_lt : c.t < 32768
  fineX_lt : c.fineX < 8

namespace Scroll

variable {c : Scroll}

/-- The table that a write chooses is two bits of the start. -/
theorem Bounded.setNametable (h : c.Bounded) (n : Nat) : (c.setNametable n).Bounded where
  t_lt := Place.ofParts_lt (Nat.mod_lt _ (by omega)) (Nat.mod_lt _ (by omega))
    (Nat.mod_lt _ (by omega)) (Nat.mod_lt _ (by omega)) (Nat.mod_lt _ (by omega))
  fineX_lt := h.fineX_lt

/-- The scroll register puts five bits and three of each byte in their places. -/
theorem Bounded.writeScroll (h : c.Bounded) (v : UInt8) : (c.writeScroll v).Bounded := by
  have hv : v.toNat / 8 < 32 := by
    have := v.toNat_lt
    omega
  have hf : v.toNat % 8 < 8 := Nat.mod_lt _ (by omega)
  unfold Scroll.writeScroll
  dsimp only
  split
  · refine ⟨?_, h.fineX_lt⟩
    exact Place.ofParts_lt hf (Nat.mod_lt _ (by omega)) (Nat.mod_lt _ (by omega)) hv
      (Nat.mod_lt _ (by omega))
  · refine ⟨?_, hf⟩
    exact Place.ofParts_lt (Nat.mod_lt _ (by omega)) (Nat.mod_lt _ (by omega))
      (Nat.mod_lt _ (by omega)) (Nat.mod_lt _ (by omega)) hv

/-- The address register puts six bits of the first byte and eight of the second in the start. -/
theorem Bounded.writeAddress (h : c.Bounded) (v : UInt8) : (c.writeAddress v).Bounded := by
  have ht := h.t_lt
  have hv := v.toNat_lt
  unfold Scroll.writeAddress
  dsimp only
  split
  · exact ⟨by dsimp only; omega, h.fineX_lt⟩
  · exact ⟨by dsimp only; omega, h.fineX_lt⟩

end Scroll

namespace Standing

variable {s : Standing}

/-- The registers of the double writes are bounded as the standing is. -/
theorem Bounded.scroll (h : s.Bounded) : s.scroll.Bounded := ⟨h.start_lt, h.fineX_lt⟩

/-- And what a write has made of them can be put back. -/
theorem Bounded.withScroll (h : s.Bounded) {c : Scroll} (hc : c.Bounded) :
    (s.withScroll c).Bounded := ⟨hc.t_lt, hc.fineX_lt, h.line_lt, h.dot_lt⟩

/-- Only the start, the column and the raster are bounded. -/
theorem Bounded.congr {t : Standing} (h : s.Bounded) (hs : t.start = s.start)
    (hf : t.fineX = s.fineX) (hr : t.raster = s.raster) : t.Bounded where
  start_lt := by rw [hs]; exact h.start_lt
  fineX_lt := by rw [hf]; exact h.fineX_lt
  line_lt := by rw [hr]; exact h.line_lt
  dot_lt := by rw [hr]; exact h.dot_lt

/-- A dot moves the raster within its lines and dots, and leaves the start. -/
theorem Bounded.tick (h : s.Bounded) : s.tick.Bounded where
  start_lt := h.start_lt
  fineX_lt := h.fineX_lt
  line_lt := Raster.line_advance_lt h.line_lt _
  dot_lt := Raster.dot_advance_lt _ _

/-- A read lowers a flag and the toggle, and no more. -/
theorem Bounded.read (h : s.Bounded) (register : Nat) : (s.read register).Bounded := by
  unfold Standing.read
  split
  · exact h.congr rfl rfl rfl
  · exact h

/-- A write to any register keeps the bounds: three of them change the start, the others leave
it. -/
theorem Bounded.write (h : s.Bounded) (register : Nat) (v : UInt8) :
    (s.write register v).Bounded := by
  unfold Standing.write
  split
  · exact (h.withScroll (h.scroll.setNametable (Control.mk v).nametable)).congr rfl rfl rfl
  · exact h.congr rfl rfl rfl
  · exact h.withScroll (h.scroll.writeScroll v)
  · exact h.withScroll (h.scroll.writeAddress v)
  · exact h

end Standing

/-- The states that a picture unit can come to: dots are drawn, on any board, and the machine makes
its accesses. -/
inductive Reachable : Ppu → Prop where
  | initial : Reachable {}
  | tick {p : Ppu} (board : Board) (h : Reachable p) : Reachable (p.tick board)
  | read {p : Ppu} (board : Board) (register : Nat) (h : Reachable p) :
      Reachable (p.read board register).2
  | write {p : Ppu} (board : Board) (register : Nat) (v : UInt8) (h : Reachable p) :
      Reachable (p.write board register v).1
  | writeOam {p : Ppu} (v : UInt8) (h : Reachable p) : Reachable (p.writeOam v)
  | takeNmi {p : Ppu} (h : Reachable p) : Reachable p.takeNmi.2
  | clearFrameReady {p : Ppu} (h : Reachable p) : Reachable p.clearFrameReady

/-- **Every state that can be come to is within its bits.** -/
theorem Reachable.bounded {p : Ppu} (h : p.Reachable) : p.standing.Bounded := by
  induction h with
  | initial => exact ⟨by decide, by decide, by decide, by decide⟩
  | tick board _ ih =>
    rw [standing_tick]
    exact ih.tick
  | read board register _ ih =>
    rw [standing_read]
    exact ih.read register
  | write board register v _ ih =>
    rw [standing_write]
    exact ih.write register v
  | writeOam v _ ih =>
    rw [standing_writeOam]
    exact ih
  | takeNmi _ ih => exact ih.congr rfl rfl rfl
  | clearFrameReady _ ih => exact ih.congr rfl rfl rfl

/-! ### Dots without end -/

/-- No number of dots changes what is shown and what is hidden. -/
theorem Standing.mask_iterate_tick (s : Standing) (n : Nat) :
    (Standing.tick^[n] s).mask = s.mask := by
  induction n with
  | zero => rfl
  | succ n ih =>
    rw [Function.iterate_succ_apply']
    exact ih

/-- So over any number of dots the raster goes on by itself. -/
theorem Standing.raster_iterate_tick (s : Standing) (n : Nat) :
    (Standing.tick^[n] s).raster =
      (fun r : Raster => r.advance s.mask.rendering)^[n] s.raster := by
  induction n with
  | zero => rfl
  | succ n ih =>
    rw [Function.iterate_succ_apply', Function.iterate_succ_apply', ← ih,
      ← Standing.mask_iterate_tick s n]
    rfl

/-- The standing after any number of dots, by `standing_tick` for each. -/
theorem standing_iterate_tick (p : Ppu) (board : Board) (n : Nat) :
    ((fun p => p.tick board)^[n] p).standing = Standing.tick^[n] p.standing :=
  Function.Semiconj.iterate_right (fun p => standing_tick p board) n p

/-- Any number of dots leads from a reachable state to one. -/
theorem Reachable.iterate_tick {p : Ppu} (h : p.Reachable) (board : Board) (n : Nat) :
    ((fun p => p.tick board)^[n] p).Reachable := by
  induction n with
  | zero => exact h
  | succ n ih =>
    rw [Function.iterate_succ_apply']
    exact ih.tick board

end Ppu
end Famicom
