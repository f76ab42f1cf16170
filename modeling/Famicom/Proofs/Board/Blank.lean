/-
# A blank board

The smallest board that there is, with nothing but zeros in its chips: what is said of every board
and every console has it for an instance.  It is the board of a blank cartridge, which can be wired
in other ways as well, and whose program can be another (`Cartridge.parse_blank`).
-/

import Famicom.Board.Basic

namespace Famicom
namespace Board

/-- The board of a cartridge with one bank of program ROM and character RAM, all zeros. -/
def blank : Board where
  wiring := .nrom
  number := 0
  prg := .zeros Cartridge.prgBankSize (Nat.zero_lt_succ _)
  chr := .zeros Cartridge.chrBankSize (Nat.zero_lt_succ _)
  chrIsRam := true
  prgRam := Vector.replicate 8192 0
  nametables := Vector.replicate 4096 0
  wired := .horizontal

/-- There are only zeros in the program ROM of a blank board, however it is wired. -/
theorem readCpu_blank {address : UInt16} (h : 0x8000 ≤ address) (wiring : Wiring)
    (number : UInt8) : ({ blank with wiring, number } : Board).readCpu address = 0 := by
  rw [readCpu, if_neg (UInt16.not_lt.2 (UInt16.le_trans (by decide) h)),
    if_neg (UInt16.not_lt.2 h)]
  exact Array.getElem_replicate ..

end Board

/-- The cartridge with one bank of program ROM and character RAM, all zeros, whose header has the
given flags. -/
def Cartridge.blank (flags6 : UInt8) : Cartridge where
  header := { prgCount := 1, chrCount := 0, flags6, flags7 := 0 }
  trainer := none
  prg := .zeros prgBankSize (Nat.zero_lt_succ _)
  chr := .zeros chrBankSize (Nat.zero_lt_succ _)

/-- It is the board of the blank cartridge. -/
theorem Board.ofCartridge_blank : Board.ofCartridge (.blank 0) = .ok .blank := rfl

namespace Cartridge

/-- The header of a blank cartridge, as it stands in an image. -/
def blankHeader : Array UInt8 := #[0x4E, 0x45, 0x53, 0x1A, 1, 0, 0, 0, 0, 0, 0, 0, 0, 0, 0, 0]

/-- Whatever follows it, the header is read as it was written. -/
theorem parse_blankHeader (program : Array UInt8) :
    Header.parse (blankHeader ++ program) = .ok (blank 0).header := by
  have hs : ¬ (blankHeader ++ program).size < Header.size := by
    rw [Array.size_append]
    exact Nat.not_lt.2 (Nat.le_add_right 16 program.size)
  have hm : (blankHeader ++ program).extract 0 4 = Header.mark := by
    rw [Array.extract_append]
    simp [blankHeader, Header.mark]
  have hg {i : Nat} (hi : i < blankHeader.size) (h : i < (blankHeader ++ program).size) :
      (blankHeader ++ program)[i] = blankHeader[i] :=
    Array.getElem_append_left hi
  unfold Header.parse
  rw [dif_neg hs]
  dsimp only
  rw [if_pos hm, hg (by decide), hg (by decide), hg (by decide), hg (by decide)]
  rfl

/-- What follows the header of an image of that size is its program ROM. -/
theorem chipAt_blankHeader {program : Array UInt8} {offset length : Nat} (ho : offset = 16)
    (hl : program.size = length) (pos : 0 < length) :
    chipAt (blankHeader ++ program) offset length pos = .ok ⟨program, hl ▸ pos⟩ := by
  subst ho hl
  have hs : 16 + program.size ≤ (blankHeader ++ program).size := by
    rw [Array.size_append]
    exact Nat.le_refl _
  have hp : (blankHeader ++ program).extract 16 (16 + program.size) = program := by
    rw [Array.extract_append]
    simp [blankHeader]
  rw [chipAt, dif_pos hs]
  simp only [Chip.ofSlice, hp]

/-- **The image of a cartridge with one bank of program ROM** and character RAM. -/
theorem parse_blank {program : Array UInt8} (h : program.size = prgBankSize) :
    parse (blankHeader ++ program) =
      .ok { blank 0 with prg := ⟨program, h ▸ Nat.zero_lt_succ _⟩ } := by
  have ht : trainerOf (blank 0).header (blankHeader ++ program) = .ok none := rfl
  have hl : prgSize (blank 0).header = prgBankSize := Nat.one_mul _
  have ho : prgOffset (blank 0).header = 16 := rfl
  have hp := chipAt_blankHeader ho (h.trans hl.symm) (prgSize_pos _)
  have hc : chrOf (blank 0).header (blankHeader ++ program) = .ok (blank 0).chr := rfl
  simp only [parse, parse_blankHeader, bind, Except.bind, ht, hp, hc]
  rfl

end Cartridge

end Famicom
