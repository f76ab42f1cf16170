/-
# What a board shows

Two boards show the same when the picture unit reads the same bytes from them
(`Board.ShowsAs`).  The cycles that a board counts between two writes do not show
(`Board.showsAs_tick`).
-/

import Famicom.Board.Basic

namespace Famicom
namespace Board

/-- The picture unit cannot tell the one board from the other. -/
def ShowsAs (b board : Board) : Prop := ∀ address, b.readPpu address = board.readPpu address

theorem ShowsAs.refl (b : Board) : b.ShowsAs b := fun _ => rfl

theorem ShowsAs.trans {a b c : Board} (h : a.ShowsAs b) (k : b.ShowsAs c) : a.ShowsAs c :=
  fun address => (h address).trans (k address)

/-- The registers of a board that show are those that pick the character bank and the mirroring. -/
theorem showsAs_of_wiring {b : Board} {w : Wiring}
    (ho : ∀ address, { b with wiring := w }.chrOffset address = b.chrOffset address)
    (hm : { b with wiring := w }.mirroring = b.mirroring) : { b with wiring := w }.ShowsAs b := by
  intro address
  unfold readPpu
  simp only [ho, hm]

/-- A processor cycle that passes on a board does not show. -/
theorem showsAs_tick (b : Board) : b.tick.ShowsAs b := by
  unfold tick
  split
  · rename_i m hw
    have ht : m.tick.mirroring = m.mirroring ∧ ∀ address, m.tick.chrOffset address =
        m.chrOffset address := by
      unfold Mmc1.tick
      split
      · exact ⟨rfl, fun _ => rfl⟩
      · exact ⟨rfl, fun _ => rfl⟩
    split
    · exact .refl b
    · refine showsAs_of_wiring (fun address => ?_) ?_
      · simp only [chrOffset, hw, ht.2]
      · simp only [mirroring, hw, ht.1]
  · exact .refl b

end Board
end Famicom
