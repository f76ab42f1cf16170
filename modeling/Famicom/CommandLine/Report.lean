/-
# The state in print
-/

import Famicom.Console.Basic

namespace Famicom
namespace CommandLine

/-- Lines of text, each ended. -/
def unlines (lines : List String) : String := String.join (lines.map (· ++ "\n"))

/-- The processor in print. -/
def cpuReport (c : Cpu) : String :=
  let r := c.registers
  unlines [
    "",
    "CPU State:",
    "  A:    $" ++ Hex.byte r.a,
    "  X:    $" ++ Hex.byte r.x,
    "  Y:    $" ++ Hex.byte r.y,
    "  PC:   $" ++ Hex.word r.pc,
    "  SP:   $" ++ Hex.byte r.sp,
    "  P:    $" ++ Hex.byte r.status.toByte ++ " (" ++ r.status.render ++ ")",
    "  Cycles: " ++ c.total.repr]

/-- A truth value in print. -/
def truth (b : Bool) : String := if b then "true" else "false"

/-- The picture unit in print. -/
def ppuReport (p : Ppu) : String :=
  unlines [
    "",
    "PPU State:",
    "  Scanline: " ++ p.raster.line.repr,
    "  Dot: " ++ p.raster.dot.repr,
    "  VBLANK: " ++ truth p.status.vblank,
    "  CTRL: $" ++ Hex.byte p.control.bits,
    "  MASK: $" ++ Hex.byte p.mask.bits,
    "  V: $" ++ Hex.word (UInt16.ofNat p.scroll.v) ++ "  T: $" ++
      Hex.word (UInt16.ofNat p.scroll.t),
    "  Odd frame: " ++ truth p.raster.oddFrame]

/-- The bytes of a picture: red, green and blue of each pixel. -/
def rgbBytes (pixels : List UInt32) : List UInt8 :=
  pixels.flatMap fun (p : UInt32) => [(p >>> 16).toUInt8, (p >>> 8).toUInt8, p.toUInt8]

end CommandLine
end Famicom
