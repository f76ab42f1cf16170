/-
# How long a frame lasts

Dots are drawn, and between them the processor does what it likes with the registers.  The picture
unit counts no frames; it knows only whether the number of those before is odd.  To say how long
they last the unit is watched with a record (`Ppu.Recorded`): of every dot the frame that it
belongs to, its place, whether something was being rendered, and whether it raised the flag that
says that a frame is ready.

Of every frame that is complete the record holds the dots in order and without a gap, 89342 of
them, or one less if the frame was cut short (`Ppu.Recorded.Regular`).  From this follow the law of
the raster (`Ppu.Recorded.Regular.length_dots`), and that every frame raises the flag once
(`Ppu.Recorded.Regular.countP_raises`).
-/

import Mathlib.Data.List.Nodup
import Famicom.Proofs.Ppu.Reachable
import Famicom.Proofs.Ppu.VerticalBlank

namespace Famicom
namespace Ppu

/-- What can be asked of the picture unit between two resets. -/
inductive Call where
  /-- Draw a dot. -/
  | tick (board : Board)
  /-- Read a register. -/
  | read (board : Board) (register : Nat)
  /-- Write a register. -/
  | write (board : Board) (register : Nat) (v : UInt8)
  /-- Write a byte of object memory, as a transfer does. -/
  | writeOam (v : UInt8)
  /-- Take a request for an NMI. -/
  | takeNmi
  /-- Take note that a frame is ready. -/
  | clearFrameReady

/-- Whether a call draws a dot. -/
def Call.isTick : Call → Bool
  | tick _ => true
  | _ => false

/-- The picture unit that a call leaves. -/
def call (p : Ppu) : Call → Ppu
  | .tick board => p.tick board
  | .read board register => (p.read board register).2
  | .write board register v => (p.write board register v).1
  | .writeOam v => p.writeOam v
  | .takeNmi => p.takeNmi.2
  | .clearFrameReady => p.clearFrameReady

/-- One call more is still a run of the picture unit. -/
theorem Reachable.call {p : Ppu} (h : p.Reachable) (x : Call) : (p.call x).Reachable := by
  cases x with
  | tick board => exact h.tick board
  | read board register => exact h.read board register
  | write board register v => exact h.write board register v
  | writeOam v => exact h.writeOam v
  | takeNmi => exact h.takeNmi
  | clearFrameReady => exact h.clearFrameReady

/-- What a call other than a dot does to the raster and to the flag: at most it takes the flag. -/
theorem standing_call {x : Call} (hx : x.isTick = false) (p : Ppu) :
    (p.call x).raster = p.raster ∧ ((p.call x).frameReady = true → p.frameReady = true) := by
  have key {s : Standing} (hs : (p.call x).standing = s) (hr : s.raster = p.standing.raster)
      (hf : s.frameReady = p.standing.frameReady) :
      (p.call x).raster = p.raster ∧ ((p.call x).frameReady = true → p.frameReady = true) := by
    subst hs
    exact ⟨hr, fun h => hf.symm.trans h⟩
  cases x with
  | tick board => cases hx
  | read board register =>
    have hs := Standing.seen_read p.standing register
    exact key (standing_read p board register) hs.raster hs.frameReady
  | write board register v =>
    exact key (standing_write p board register v) (Standing.raster_write ..)
      (Standing.frameReady_write ..)
  | writeOam v => exact key rfl rfl rfl
  | takeNmi => exact key rfl rfl rfl
  | clearFrameReady => exact ⟨rfl, fun h => absurd h Bool.false_ne_true⟩

/-- Whether a dot raises the flag, up or not. -/
def raises (p : Ppu) (board : Board) : Bool := (p.clearFrameReady.tick board).frameReady

/-- A dot raises the signal exactly where the standing says so; what the board holds does not
matter. -/
theorem raises_eq (p : Ppu) (board : Board) : p.raises board = p.standing.startsVblank :=
  (congrArg Standing.frameReady (standing_tick p.clearFrameReady board)).trans (Bool.false_or _)

/-! ### The record of the dots -/

/-- A dot that the picture unit has gone through. -/
structure Passed where
  /-- The frames that were complete before. -/
  frame : Nat
  line : Nat
  dot : Nat
  /-- Whether something was being rendered. -/
  rendering : Bool
  /-- Whether it raised the flag. -/
  raises : Bool
deriving DecidableEq, Repr

namespace Passed

/-- The position of a dot in its frame. -/
def position (d : Passed) : Nat := dotsPerLine * d.line + d.dot

/-- Whether this is the dot of an odd frame that cuts it short. -/
def skips (d : Passed) : Bool :=
  d.frame % 2 == 1 && d.rendering && d.line == preRenderLine && d.dot == 339

end Passed

/-- Whether a frame was cut short: it is an odd one, and something was being rendered in dot 339 of
its last line. -/
def cutShort (dots : List Passed) (f : Nat) : Bool := dots.any fun d => d.frame == f && d.skips

/-- The positions of the dots of a frame. -/
def frameDots (dots : List Passed) (f : Nat) : List Nat :=
  (dots.filter fun d => d.frame == f).map Passed.position

/-- A picture unit with a record of the dots that it has gone through. -/
structure Recorded where
  ppu : Ppu := {}
  /-- The frames that are complete. -/
  frames : Nat := 0
  /-- The dots in order. -/
  dots : List Passed := []

namespace Recorded

/-- What is recorded of the next dot. -/
def passing (r : Recorded) (board : Board) : Passed where
  frame := r.frames
  line := r.ppu.raster.line
  dot := r.ppu.raster.dot
  rendering := r.ppu.mask.rendering
  raises := r.ppu.raises board

/-- A call, with a record.  A frame is complete when the raster is back at its start. -/
def call (r : Recorded) : Call → Recorded
  | .tick board =>
    let ppu := r.ppu.tick board
    { ppu
      frames := if ppu.raster.position = 0 then r.frames + 1 else r.frames
      dots := r.dots ++ [r.passing board] }
  | x => { r with ppu := r.ppu.call x }

/-- What calls leave that follow a reset. -/
def ofCalls (calls : List Call) : Recorded := calls.foldl call {}

/-- A call that passes no dot leaves the record of dots and frames. -/
theorem call_of_not_isTick {x : Call} (hx : x.isTick = false) (r : Recorded) :
    r.call x = { r with ppu := r.ppu.call x } := by
  cases x with
  | tick board => cases hx
  | read | write | writeOam | takeNmi | clearFrameReady => rfl

/-- The record changes nothing. -/
theorem ppu_foldl_call (calls : List Call) (r : Recorded) :
    (calls.foldl call r).ppu = calls.foldl Ppu.call r.ppu := by
  induction calls generalizing r with
  | nil => rfl
  | cons x rest ih =>
    rw [List.foldl_cons, List.foldl_cons, ih]
    cases x <;> rfl

/-- Every dot is recorded. -/
theorem length_dots_foldl_call (calls : List Call) (r : Recorded) :
    (calls.foldl call r).dots.length = r.dots.length + calls.countP Call.isTick := by
  induction calls generalizing r with
  | nil => rfl
  | cons x rest ih =>
    rw [List.foldl_cons, ih, List.countP_cons]
    cases x with
    | tick board =>
      have hl : (r.call (.tick board)).dots.length = r.dots.length + 1 := List.length_append
      have hx : (Call.tick board).isTick = true := rfl
      rw [hl, if_pos hx]
      omega
    | read | write | writeOam | takeNmi | clearFrameReady => rfl

end Recorded

/-! ### One dot more in the record -/

section Concat

variable {dots : List Passed} {d : Passed} {f : Nat}

/-- A dot more is the last of its own frame. -/
theorem frameDots_concat (dots : List Passed) (d : Passed) :
    frameDots (dots ++ [d]) d.frame = frameDots dots d.frame ++ [d.position] := by
  simp [frameDots]

/-- And it is in no other frame. -/
theorem frameDots_concat_of_ne (h : d.frame ≠ f) :
    frameDots (dots ++ [d]) f = frameDots dots f := by
  simp [frameDots, h]

/-- A frame is cut short as soon as one of its dots skips the next. -/
theorem cutShort_concat (dots : List Passed) (d : Passed) :
    cutShort (dots ++ [d]) d.frame = (cutShort dots d.frame || d.skips) := by
  simp [cutShort]

/-- A dot of another frame does not cut this one short. -/
theorem cutShort_concat_of_ne (h : d.frame ≠ f) :
    cutShort (dots ++ [d]) f = cutShort dots f := by
  simp [cutShort, h]

/-- A frame after all the others has no dots yet. -/
theorem frameDots_eq_nil (h : ∀ d ∈ dots, d.frame < f) : frameDots dots f = [] := by
  rw [frameDots, List.map_eq_nil_iff, List.filter_eq_nil_iff]
  intro d hd
  have := h d hd
  rw [beq_iff_eq]
  omega

/-- A frame that has not begun has not been cut short. -/
theorem cutShort_eq_false (h : ∀ d ∈ dots, d.frame < f) : cutShort dots f = false := by
  rw [cutShort, List.any_eq_false]
  intro d hd hc
  have := h d hd
  rw [Bool.and_eq_true, beq_iff_eq] at hc
  omega

end Concat

namespace Recorded

/-- **The record is regular**: of every complete frame it holds the dots in order, all but one if it
was cut short, and of the frame that is being drawn those that come before the raster. -/
structure Regular (r : Recorded) : Prop where
  reachable : r.ppu.Reachable
  odd : r.ppu.raster.oddFrame = (r.frames % 2 == 1)
  past : ∀ d ∈ r.dots, d.frame ≤ r.frames ∧ d.dot < dotsPerLine
  raises : ∀ d ∈ r.dots, d.raises = (d.line == vblankLine && d.dot == 1)
  whole : cutShort r.dots r.frames = false
  current : frameDots r.dots r.frames = List.range r.ppu.raster.position
  complete : ∀ f < r.frames,
    frameDots r.dots f = List.range (dotsPerFrame - (cutShort r.dots f).toNat)

variable {r : Recorded}

/-- In a regular record the raster is inside a frame. -/
theorem Regular.inFrame (h : r.Regular) : r.ppu.raster.InFrame :=
  ⟨h.reachable.bounded.line_lt, h.reachable.bounded.dot_lt⟩

/-- The record of no calls is regular: the first frame has no dots yet. -/
theorem regular_reset : Regular {} where
  reachable := .initial
  odd := rfl
  past _ hd := absurd hd List.not_mem_nil
  raises _ hd := absurd hd List.not_mem_nil
  whole := rfl
  current := rfl
  complete _ hf := absurd hf (Nat.not_lt_zero _)

/-- A dot cuts its frame short exactly when the raster skips the next. -/
theorem Regular.skips_passing (h : r.Regular) (board : Board) :
    (r.passing board).skips = r.ppu.raster.skipsDot r.ppu.mask.rendering := by
  rw [Raster.skipsDot, h.odd]
  rfl

section Tick

variable (h : r.Regular) (board : Board)

include h

/-- What a dot notes of itself is within the frame that is being drawn. -/
theorem Regular.past_passing : ∀ d ∈ r.dots ++ [r.passing board],
    d.frame ≤ r.frames ∧ d.dot < dotsPerLine := by
  intro d hd
  rcases List.mem_append.1 hd with hd | hd
  · exact h.past d hd
  · rw [List.mem_singleton.1 hd]
    exact ⟨Nat.le_refl _, h.inFrame.dot_lt⟩

/-- A dot notes a signal exactly at the start of the vertical blank. -/
theorem Regular.raises_passing : ∀ d ∈ r.dots ++ [r.passing board],
    d.raises = (d.line == vblankLine && d.dot == 1) := by
  intro d hd
  rcases List.mem_append.1 hd with hd | hd
  · exact h.raises d hd
  · rw [List.mem_singleton.1 hd]
    exact raises_eq r.ppu board

/-- With the dot that passes, the frame has its dots up to the raster. -/
theorem Regular.current_passing : frameDots (r.dots ++ [r.passing board]) r.frames =
    List.range (r.ppu.raster.position + 1) := by
  have hd := frameDots_concat r.dots (r.passing board)
  rw [show (r.passing board).frame = r.frames from rfl] at hd
  rw [hd, h.current, List.range_succ]
  rfl

/-- The frame that is being drawn is cut short by the dot that passes, or not at all. -/
theorem Regular.cutShort_passing : cutShort (r.dots ++ [r.passing board]) r.frames =
    r.ppu.raster.skipsDot r.ppu.mask.rendering := by
  have hd := cutShort_concat r.dots (r.passing board)
  rw [show (r.passing board).frame = r.frames from rfl] at hd
  rw [hd, h.whole, Bool.false_or, h.skips_passing]

/-- The frames before are left as they were: the dot that passes belongs to none of them. -/
theorem Regular.complete_passing {f : Nat} (hf : f < r.frames) :
    frameDots (r.dots ++ [r.passing board]) f =
      List.range (dotsPerFrame - (cutShort (r.dots ++ [r.passing board]) f).toNat) := by
  have hne : (r.passing board).frame ≠ f := Nat.ne_of_gt hf
  rw [frameDots_concat_of_ne hne, cutShort_concat_of_ne hne]
  exact h.complete f hf

/-- **A dot more is recorded, or the dot that completes a frame.** -/
theorem Regular.tick : (r.call (.tick board)).Regular := by
  have hr := raster_tick r.ppu board
  obtain ⟨hp, ho, hs⟩ | ⟨ha, hp⟩ := h.inFrame.advance_cases r.ppu.mask.rendering
  · have hc : r.call (.tick board) =
        { r with ppu := r.ppu.tick board, dots := r.dots ++ [r.passing board] } := by
      have hn : (r.ppu.tick board).raster.position ≠ 0 := by
        rw [hr, hp]
        exact Nat.succ_ne_zero _
      unfold call
      dsimp only
      rw [if_neg hn]
    rw [hc]
    refine ⟨h.reachable.tick board, ?_, h.past_passing board, h.raises_passing board, ?_, ?_,
      fun f => h.complete_passing board⟩
    · rw [hr, ho]
      exact h.odd
    · exact (h.cutShort_passing board).trans hs
    · rw [hr, hp]
      exact h.current_passing board
  · -- the frame is over: its dots are complete, and the next has none
    have hc : r.call (.tick board) =
        { ppu := r.ppu.tick board
          frames := r.frames + 1
          dots := r.dots ++ [r.passing board] } := by
      have hn : (r.ppu.tick board).raster.position = 0 := by
        rw [hr, ha]
        rfl
      unfold call
      dsimp only
      rw [if_pos hn]
    have hlt : ∀ d ∈ r.dots ++ [r.passing board], d.frame < r.frames + 1 := fun d hd =>
      Nat.lt_succ_of_le (h.past_passing board d hd).1
    rw [hc]
    refine ⟨h.reachable.tick board, ?_, fun d hd => ?_, h.raises_passing board,
      cutShort_eq_false hlt, ?_, fun f hf => ?_⟩
    · rw [hr, ha, h.odd]
      rcases Nat.mod_two_eq_zero_or_one r.frames with hm | hm
      · have hm' : (r.frames + 1) % 2 = 1 := by omega
        rw [hm, hm']
        rfl
      · have hm' : (r.frames + 1) % 2 = 0 := by omega
        rw [hm, hm']
        rfl
    · exact ⟨Nat.le_of_lt (hlt d hd), (h.past_passing board d hd).2⟩
    · rw [hr, ha]
      exact frameDots_eq_nil hlt
    · rcases Nat.lt_succ_iff_lt_or_eq.1 hf with hf | rfl
      · exact h.complete_passing board hf
      · rw [h.current_passing, h.cutShort_passing, ← hp, Nat.add_sub_cancel]

end Tick

/-- **Whatever is asked for, the record stays regular.** -/
theorem Regular.call (h : r.Regular) (x : Call) : (r.call x).Regular := by
  cases hx : x.isTick with
  | true =>
    cases x with
    | tick board => exact h.tick board
    | read | write | writeOam | takeNmi | clearFrameReady => cases hx
  | false =>
    have hr := (standing_call hx r.ppu).1
    rw [call_of_not_isTick hx]
    refine ⟨h.reachable.call x, ?_, h.past, h.raises, h.whole, ?_, h.complete⟩
    · rw [hr]
      exact h.odd
    · rw [hr]
      exact h.current

/-- **Every run has a regular record**, by induction over its calls with `Regular.tick` for a
dot. -/
theorem regular_ofCalls (calls : List Call) : (ofCalls calls).Regular := by
  have key : ∀ r : Recorded, r.Regular → (calls.foldl Recorded.call r).Regular := by
    induction calls with
    | nil => exact fun r h => h
    | cons x rest ih => exact fun r h => ih _ (h.call x)
  exact key {} regular_reset

/-! ### Reading the record -/

/-- How many dots a frame has is the length of the list of them. -/
theorem countP_frame (dots : List Passed) (f : Nat) :
    (dots.countP fun d => d.frame == f) = (frameDots dots f).length := by
  rw [frameDots, List.length_map, List.countP_eq_length_filter]

/-- The dots of the frames before the next are those of the frames before and those of this one. -/
theorem countP_frame_lt_succ (dots : List Passed) (f : Nat) :
    (dots.countP fun d => d.frame < f + 1) =
      (dots.countP fun d => d.frame < f) + dots.countP fun d => d.frame == f := by
  induction dots with
  | nil => rfl
  | cons d dots ih =>
    rw [List.countP_cons, List.countP_cons, List.countP_cons, ih]
    simp only [decide_eq_true_eq, beq_iff_eq]
    split <;> split <;> split <;> omega

namespace Regular

/-- How long a complete frame is. -/
theorem length_frame (h : r.Regular) {f : Nat} (hf : f < r.frames) :
    (r.dots.countP fun d => d.frame == f) + (cutShort r.dots f).toNat = dotsPerFrame := by
  have hb : (cutShort r.dots f).toNat ≤ 1 := Bool.toNat_le _
  have hd : 1 ≤ dotsPerFrame := by decide
  rw [countP_frame, h.complete f hf, List.length_range]
  omega

/-- The dots of the frames before frame `f` are those of so many frames, but for one in each that
was cut short. -/
theorem countP_before (h : r.Regular) {f : Nat} (hf : f ≤ r.frames) :
    (r.dots.countP fun d => d.frame < f) + (List.range f).countP (cutShort r.dots) =
      dotsPerFrame * f := by
  induction f with
  | zero => simp
  | succ f ih =>
    have hi := ih (Nat.le_of_succ_le hf)
    have hl := h.length_frame (Nat.lt_of_succ_le hf)
    have hc : (List.range (f + 1)).countP (cutShort r.dots) =
        (List.range f).countP (cutShort r.dots) + (cutShort r.dots f).toNat := by
      rw [List.range_succ, List.countP_append, List.countP_singleton]
      cases cutShort r.dots f <;> rfl
    rw [countP_frame_lt_succ, hc, Nat.mul_succ]
    omega

/-- **All the dots**: those of the complete frames, and those of the one that is being drawn. -/
theorem length_dots (h : r.Regular) :
    r.dots.length + (List.range (r.frames + 1)).countP (cutShort r.dots) =
      dotsPerFrame * r.frames + r.ppu.raster.position := by
  have hb := h.countP_before (Nat.le_refl r.frames)
  have hc : (r.dots.countP fun d => d.frame == r.frames) = r.ppu.raster.position := by
    rw [countP_frame, h.current, List.length_range]
  have hl : r.dots.length = r.dots.countP fun d => d.frame < r.frames + 1 := by
    refine (List.countP_eq_length.2 fun d hd => ?_).symm
    exact decide_eq_true (Nat.lt_succ_of_le (h.past d hd).1)
  rw [hl, countP_frame_lt_succ, hc, List.range_succ, List.countP_append, List.countP_singleton,
    h.whole, if_neg Bool.false_ne_true]
  omega

/-- **A complete frame has raised the flag once.** -/
theorem countP_raises (h : r.Regular) {f : Nat} (hf : f < r.frames) :
    (r.dots.countP fun d => d.frame == f && d.raises) = 1 := by
  have hb : (cutShort r.dots f).toNat ≤ 1 := Bool.toNat_le _
  have hm : (frameDots r.dots f).count (dotsPerLine * vblankLine + 1) = 1 := by
    rw [h.complete f hf]
    refine List.count_eq_one_of_mem List.nodup_range (List.mem_range.2 ?_)
    simp only [dotsPerFrame, linesPerFrame, dotsPerLine, vblankLine]
    omega
  rw [← hm, frameDots, List.count, List.countP_map, List.countP_filter]
  refine List.countP_congr fun d hd => ?_
  have hd' := (h.past d hd).2
  rw [h.raises d hd]
  simp only [Bool.and_eq_true, beq_iff_eq, Function.comp_apply, Passed.position, dotsPerLine,
    vblankLine] at *
  omega

end Regular

end Recorded

/-- **The law of the raster.**  Whatever is asked of the picture unit between the dots, the dots
drawn since the reset and one for each frame that was cut short are those of the complete frames
and those before the raster, which knows whether the number of complete frames is odd.  A complete
frame has 89342 dots, or 89341 if it was cut short; exactly one of them raises the flag that it is
ready, dot 1 of line 241; and nothing but a dot raises it. -/
theorem raster_law (calls : List Call) :
    let r := Recorded.ofCalls calls
    let cut := (List.range (r.frames + 1)).countP (cutShort r.dots)
    r.ppu = calls.foldl call {} ∧
      r.dots.length = calls.countP Call.isTick ∧
      calls.countP Call.isTick + cut =
        89342 * r.frames + 341 * r.ppu.raster.line + r.ppu.raster.dot ∧
      (r.ppu.raster.oddFrame = true ↔ r.frames % 2 = 1) ∧
      (∀ f < r.frames, (r.dots.countP fun d => d.frame == f) =
        if cutShort r.dots f then 89341 else 89342) ∧
      (∀ f < r.frames, (r.dots.countP fun d => d.frame == f && d.raises) = 1) ∧
      (∀ d ∈ r.dots, d.raises = true ↔ d.line = 241 ∧ d.dot = 1) ∧
      ∀ x : Call, x.isTick = false →
        (r.ppu.call x).frameReady = true → r.ppu.frameReady = true := by
  intro r cut
  have h := Recorded.regular_ofCalls calls
  have hn : r.dots.length = calls.countP Call.isTick :=
    (Recorded.length_dots_foldl_call calls {}).trans (Nat.zero_add _)
  -- the dots of all frames are the dots of the record, since each belongs to one
  have hl := h.length_dots
  refine ⟨Recorded.ppu_foldl_call calls {}, hn, ?_, ?_, fun f hf => ?_, fun f => h.countP_raises,
    fun d hd => ?_, fun x hx => (standing_call hx r.ppu).2⟩
  · rw [← hn, Nat.add_assoc]
    exact hl
  · rw [h.odd, beq_iff_eq]
  · have hf := h.length_frame hf
    have hd : dotsPerFrame = 89342 := rfl
    cases hc : cutShort r.dots f with
    | true =>
      rw [hc] at hf
      exact Nat.succ.inj (hf.trans hd)
    | false =>
      rw [hc] at hf
      exact hf.trans hd
  · rw [h.raises d hd, Bool.and_eq_true, beq_iff_eq, beq_iff_eq, vblankLine]

end Ppu
end Famicom
