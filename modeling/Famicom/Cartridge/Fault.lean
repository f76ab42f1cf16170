/-
# Why an image is refused
-/

namespace Famicom
namespace Cartridge

/-- Why an image gives no cartridge, or a cartridge no board. -/
inductive Fault where
  /-- The image ends before a part that it announces: the part would end at `expected`, and
  the image has `found` bytes. -/
  | truncated (expected found : Nat)
  /-- The image does not start with the four bytes that mark the format. -/
  | unmarked
  /-- The header asks for a board that is not built here. -/
  | unsupportedBoard (number : UInt8)
deriving DecidableEq, Repr

/-- The fault in words. -/
def Fault.message : Fault → String
  | truncated expected found =>
    "truncated ROM image: expected " ++ expected.repr ++ " bytes, found " ++ found.repr
  | unmarked => "invalid iNES header: missing NES<EOF> magic"
  | unsupportedBoard number => "unsupported mapper " ++ number.toNat.repr

end Cartridge
end Famicom
