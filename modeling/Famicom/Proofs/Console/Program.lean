/-
# A program in memory

A reset keeps what is in memory, and the vectors of a blank cartridge all point to the start of it.
So a console with such a cartridge and a program at the start of its memory begins with the program
after a reset (`Console.reset_holding`), and comes back to it with every interrupt.
-/

import Famicom.Proofs.Console.Loop
import Famicom.Proofs.Memory.ProgramRom

namespace Famicom
namespace Console

/-- **What a reset leaves**: the processor begins where the last bytes of the program say, and the
cartridge keeps what it holds. -/
theorem reset_eq (c : Console) :
    c.reset = { c with
      cpu := { c.cpu with
        registers :=
          { pc := Word.ofBytes (c.memory.board.readCpu 0xFFFC) (c.memory.board.readCpu 0xFFFD) }
        remaining := Cpu.entryCycles
        total := Cpu.entryCycles }
      memory := c.memory.reset
      frames := 0 } := by
  have hread (address : UInt16) : Bus.read c.memory.reset address = c.memory.reset.read address :=
    rfl
  have hr : Bus.readWord c.memory.reset Cpu.resetVector =
      (Word.ofBytes (c.memory.board.readCpu 0xFFFC) (c.memory.board.readCpu 0xFFFD),
        c.memory.reset) := by
    unfold Bus.readWord Bus.readWordAt
    rw [hread, Memory.read_of_le (by decide)]
    dsimp only
    rw [hread, Memory.read_of_le (by decide)]
    rfl
  unfold reset Cpu.reset
  dsimp only
  rw [hr]

/-- What stands in memory if it begins with a program and is blank behind it. -/
def programRam (program : List UInt8) : Vector UInt8 2048 where
  toArray := ⟨(program ++ List.replicate 2048 0).take 2048⟩
  size_toArray := by
    rw [List.size_toArray, List.length_take, List.length_append, List.length_replicate]
    exact Nat.min_eq_left (Nat.le_add_left ..)

/-- A console with a blank cartridge and a program at the start of its memory. -/
def holding (program : List UInt8) : Console where
  cpu := {}
  memory := { Memory.ofBoard .blank Apu.defaultRate with ram := programRam program }

/-- **After a reset the program is about to begin**, with IRQs masked. -/
theorem reset_holding (program : List UInt8) :
    (holding program).reset =
      { cpu := { remaining := 7, total := 7 }, memory := (holding program).memory.reset } := by
  have hb : (holding program).memory.board = { Board.blank with wiring := .nrom, number := 0 } :=
    rfl
  rw [reset_eq, hb, Board.readCpu_blank (by decide), Board.readCpu_blank (by decide)]
  rfl

/-- A program that has cycles stolen, in each of the ways that there are.

| address | |
| --- | --- |
| `$0000` | `BCS $000C` |
| `$0002` | `SEC` |
| `$0003` | `CLI` |
| `$0004` | `LDA #$90` |
| `$0006` | `STA $4010` |
| `$0009` | `STA $4015` |
| `$000C` | `STA $4014` |

It starts a sample of one byte, which raises an IRQ when it ends.  The IRQ leads back to the start,
and there the carry flag says that it is time for the transfer to object memory. -/
def stealing : Console :=
  holding [0xB0, 0x0A, 0x38, 0x58, 0xA9, 0x90, 0x8D, 0x10, 0x40, 0x8D, 0x15, 0x40, 0x8D, 0x14, 0x40]

end Console
end Famicom
