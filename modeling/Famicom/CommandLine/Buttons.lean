/-
# Buttons in words

The buttons to hold are given as a byte, in decimal or after `0x` in hexadecimal, or as names
between commas, in capitals or not.  Blanks at the ends of the text and of each name do not
matter, nor do names that are missing.
-/

import Famicom.Pad
import Famicom.Text.Blank
import Famicom.Text.Numeral

namespace Famicom
namespace CommandLine

/-- What is wrong with a text that should name buttons. -/
inductive ButtonFault where
  /-- The text starts as a hexadecimal numeral and is none. -/
  | numeral (f : Text.NumeralFault)
  /-- There is no button with this name. -/
  | unknown (name : String)
deriving DecidableEq, Repr

/-- The fault in words. -/
def ButtonFault.message : ButtonFault → String
  | numeral f => f.message
  | unknown name => "unknown button '" ++ name ++ "'"

/-- The buttons that the given names stand for, together with those of `held`. -/
def readNames (held : UInt8) : List (List Char) → Except ButtonFault UInt8
  | [] => .ok held
  | name :: names =>
    let name := (Text.trim name).map Char.toLower
    if name.isEmpty then readNames held names
    else
      match Pad.Button.ofName? (String.ofList name) with
      | some button => readNames (held ||| button.bit) names
      | none => .error (.unknown (String.ofList name))

/-- The buttons that a text stands for, a bit for each. -/
def readButtons (s : String) : Except ButtonFault UInt8 :=
  match Text.trim s.toList with
  | '0' :: 'x' :: digits | '0' :: 'X' :: digits =>
    match Text.readNumeral 16 255 digits with
    | .ok n => .ok (UInt8.ofNat n)
    | .error f => .error (.numeral f)
  | cs =>
    match Text.readNumeral 10 255 cs with
    | .ok n => .ok (UInt8.ofNat n)
    | .error _ => readNames 0 (Text.parts ',' cs)

end CommandLine
end Famicom
