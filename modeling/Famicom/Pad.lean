/-
# The controller

The pad is a shift register with one cell for each button.  While the strobe is high
the register follows the buttons; once the strobe has fallen, each read takes one button out,
in the order A, B, Select, Start, Up, Down, Left, Right, and a one comes in behind.  So reads
after the eighth give one.
-/

namespace Famicom

/-- The eight buttons. -/
inductive Pad.Button where
  | a
  | b
  | select
  | start
  | up
  | down
  | left
  | right
deriving DecidableEq, Repr

namespace Pad.Button

/-- The buttons in the order in which they are read. -/
def all : List Button := [a, b, select, start, up, down, left, right]

/-- The bit of a button. -/
def bit : Button → UInt8
  | a => 0x01
  | b => 0x02
  | select => 0x04
  | start => 0x08
  | up => 0x10
  | down => 0x20
  | left => 0x40
  | right => 0x80

/-- The name of a button. -/
def name : Button → String
  | a => "a"
  | b => "b"
  | select => "select"
  | start => "start"
  | up => "up"
  | down => "down"
  | left => "left"
  | right => "right"

/-- The button with a given name. -/
def ofName? (s : String) : Option Button := all.find? fun button => button.name == s

end Pad.Button

/-- The controller: the buttons held now, the shift register, and the strobe. -/
structure Pad where
  buttons : UInt8 := 0
  shift : UInt8 := 0
  strobe : Bool := false
deriving DecidableEq, Repr

namespace Pad

/-- Bit 6 of every read is set: nothing drives that line. -/
def openBus : UInt8 := 0x40

/-- Hold exactly the buttons of `b`. -/
def hold (p : Pad) (b : UInt8) : Pad :=
  { p with buttons := b, shift := if p.strobe then b else p.shift }

/-- A write: bit 0 is the strobe. -/
def write (p : Pad) (v : UInt8) : Pad :=
  let strobe := v &&& 0x01 != 0
  { p with strobe, shift := if strobe then p.buttons else p.shift }

/-- A read: the next button, and the pad after it. -/
def read (p : Pad) : UInt8 × Pad :=
  if p.strobe then
    (p.buttons &&& 0x01 ||| openBus, p)
  else
    (p.shift &&& 0x01 ||| openBus, { p with shift := p.shift >>> 1 ||| 0x80 })

end Pad
end Famicom
