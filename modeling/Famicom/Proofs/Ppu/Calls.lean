/-
# What comes between the dots

Between two dots the processor reads and writes registers.  It has no part in the picture then:
neither the line that is being drawn nor the screen changes (`Ppu.picture_call`).  Of the flags it
can lower the one of the vertical blank, by reading the status (`Ppu.status_call`).
-/

import Famicom.Proofs.Ppu.Frames

namespace Famicom
namespace Ppu

/-- A read draws nothing, -/
theorem picture_read (p : Ppu) (board : Board) (register : Nat) :
    (p.read board register).2.line = p.line ∧ (p.read board register).2.frame = p.frame := by
  unfold read
  split
  · exact ⟨rfl, rfl⟩
  · exact ⟨rfl, rfl⟩
  · unfold readData
    dsimp only
    split <;> exact ⟨rfl, rfl⟩
  · exact ⟨rfl, rfl⟩

/-- and neither does a write. -/
theorem picture_write (p : Ppu) (board : Board) (register : Nat) (v : UInt8) :
    (p.write board register v).1.line = p.line ∧ (p.write board register v).1.frame = p.frame := by
  unfold write
  dsimp only
  split
  · unfold writeData
    dsimp only
    split <;> exact ⟨rfl, rfl⟩
  · unfold writeOwn
    split <;> exact ⟨rfl, rfl⟩

/-- **Only a dot draws.** -/
theorem picture_call {x : Call} (hx : x.isTick = false) (p : Ppu) :
    (p.call x).line = p.line ∧ (p.call x).frame = p.frame := by
  cases x with
  | tick board => cases hx
  | read board register => exact picture_read p board register
  | write board register v => exact picture_write p board register v
  | writeOam v | takeNmi | clearFrameReady => exact ⟨rfl, rfl⟩

/-- Of the status a read changes the flag of the vertical blank, if it is a read of the status
itself, -/
theorem status_read (p : Ppu) (board : Board) (register : Nat) :
    (p.read board register).2.status = if register = 2 then p.status.clearVblank else p.status := by
  unfold read
  split
  · rfl
  · rfl
  · unfold readData
    dsimp only
    split <;> rfl
  · next h _ _ => exact (if_neg h).symm

/-- and a write changes nothing. -/
theorem status_write (p : Ppu) (board : Board) (register : Nat) (v : UInt8) :
    (p.write board register v).1.status = p.status := by
  unfold write
  dsimp only
  split
  · unfold writeData
    dsimp only
    split <;> rfl
  · unfold writeOwn
    split <;> rfl

/-- **The flags between the dots** stay up, but for the one of the vertical blank. -/
theorem status_call {x : Call} (hx : x.isTick = false) (p : Ppu) :
    (p.call x).status = p.status ∨ (p.call x).status = p.status.clearVblank := by
  cases x with
  | tick board => cases hx
  | read board register =>
    have hs := status_read p board register
    split at hs
    · exact .inr hs
    · exact .inl hs
  | write board register v => exact .inl (status_write p board register v)
  | writeOam v | takeNmi | clearFrameReady => exact .inl rfl

end Ppu
end Famicom
