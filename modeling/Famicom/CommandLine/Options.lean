/-
# Options

An option has a long name after two hyphens and mostly a letter after one.  A switch takes no
value; the others take one, behind `=`, directly behind the letter, or as the next argument unless
that starts with a hyphen itself.  Letters of switches can be joined, `-cp`.

| | | |
| --- | --- | --- |
| `-r`, `--rom` | path | the cartridge |
| `-f`, `--frames` | number | frames to run, 60 if not given |
| `-c`, `--dump-cpu` | | print the processor at the end |
| `-p`, `--dump-ppu` | | print the picture unit at the end |
| `-b`, `--buttons` | buttons | buttons to hold |
| `--sample-rate` | number | samples in a second |
| `-s`, `--screenshot` | path | where to put the last frame |
| `-h`, `--help` | | explain |

Arguments are taken from left to right and the first fault counts, with one exception: an option
whose value is the next argument is looked at only when the next option is met, or at the end, and
an argument that is unknown, or a switch with a value, goes before it.
-/

import Famicom.Apu.Resampler
import Famicom.CommandLine.Buttons

namespace Famicom
namespace CommandLine

/-- The options. -/
inductive Key where
  | rom
  | frames
  | dumpCpu
  | dumpPpu
  | buttons
  | sampleRate
  | screenshot
  | help
deriving DecidableEq, Repr

namespace Key

/-- The options in the order in which they are explained. -/
def all : List Key :=
  [rom, frames, dumpCpu, dumpPpu, buttons, sampleRate, screenshot, help]

/-- The long name of an option. -/
def long : Key → String
  | rom => "rom"
  | frames => "frames"
  | dumpCpu => "dump-cpu"
  | dumpPpu => "dump-ppu"
  | buttons => "buttons"
  | sampleRate => "sample-rate"
  | screenshot => "screenshot"
  | help => "help"

/-- The letter of an option. -/
def letter? : Key → Option Char
  | rom => some 'r'
  | frames => some 'f'
  | dumpCpu => some 'c'
  | dumpPpu => some 'p'
  | buttons => some 'b'
  | sampleRate => none
  | screenshot => some 's'
  | help => some 'h'

/-- Whether an option takes a value. -/
def takesValue : Key → Bool
  | dumpCpu | dumpPpu | help => false
  | _ => true

/-- The option with a given long name. -/
def ofLong? (name : String) : Option Key := all.find? fun k => k.long == name

/-- The option with a given letter. -/
def ofLetter? (c : Char) : Option Key := all.find? fun k => k.letter? == some c

end Key

/-- Why arguments are refused. -/
inductive Usage where
  /-- The value of an option cannot be read. -/
  | valueValidation (key : Key) (value : String)
  /-- There is no such option, or an argument that belongs to none. -/
  | unknownArgument (argument : String)
  /-- An option has no value, or an empty one where a path is wanted. -/
  | invalidValue (key : Key)
  /-- An option is given twice. -/
  | argumentConflict (key : Key)
  /-- A switch is given a value. -/
  | tooManyValues (key : Key)
  /-- An option that is needed is not given. -/
  | missingArgument (key : Key)
  /-- An explanation is asked for. -/
  | displayHelp
deriving DecidableEq, Repr

/-- Why arguments are refused, in words. -/
def Usage.message : Usage → String
  | valueValidation key value => "invalid value '" ++ value ++ "' for '--" ++ key.long ++ "'"
  | unknownArgument argument => "unexpected argument '" ++ argument ++ "'"
  | invalidValue key => "a value is required for '--" ++ key.long ++ "'"
  | argumentConflict key => "the argument '--" ++ key.long ++ "' cannot be used multiple times"
  | tooManyValues key => "unexpected value for '--" ++ key.long ++ "'"
  | missingArgument key => "the argument '--" ++ key.long ++ "' is required"
  | displayHelp => ""

/-- What the arguments ask for. -/
structure Options where
  rom : String
  frames : Nat := 60
  dumpCpu : Bool := false
  dumpPpu : Bool := false
  buttons : UInt8 := 0
  sampleRate : Nat := Apu.defaultRate
  screenshot : Option String := none
deriving DecidableEq, Repr

/-- The largest number of frames. -/
def maxFrames : Nat := 0xFFFFFFFFFFFFFFFF

/-- The largest sample rate. -/
def maxSampleRate : Nat := 0xFFFFFFFF

/-- Read a sample rate.  It may have a minus sign if it is zero. -/
def readSampleRate (s : String) : Option Nat :=
  match s.toList with
  | '-' :: c :: cs => (Text.readDigits 10 0 0 (c :: cs)).toOption
  | cs => (Text.readNumeral 10 maxSampleRate cs).toOption

/-- The arguments as far as they have been looked at. -/
structure Progress where
  /-- The options that are settled. -/
  given : List Key := []
  /-- What they ask for; the path of the cartridge may still be missing. -/
  options : Options := { rom := "" }
  /-- An option whose value is the next argument, with that value once it has been seen. -/
  pending : Option (Key × Option String) := none

namespace Progress

/-- What is asked for once an option has the value `value`. -/
def store (o : Options) (key : Key) (value : String) : Except Usage Options :=
  match key with
  | .rom => if value = "" then .error (.invalidValue key) else .ok { o with rom := value }
  | .screenshot =>
    if value = "" then .error (.invalidValue key) else .ok { o with screenshot := some value }
  | .frames =>
    match Text.readNumeral 10 maxFrames value.toList with
    | .ok frames => .ok { o with frames }
    | .error _ => .error (.valueValidation key value)
  | .sampleRate =>
    match readSampleRate value with
    | some sampleRate => .ok { o with sampleRate }
    | none => .error (.valueValidation key value)
  | .buttons =>
    match readButtons value with
    | .ok buttons => .ok { o with buttons }
    | .error _ => .error (.valueValidation key value)
  | .dumpCpu => .ok { o with dumpCpu := true }
  | .dumpPpu => .ok { o with dumpPpu := true }
  | .help => .error .displayHelp

/-- Settle an option that has a value. -/
def settle (p : Progress) (key : Key) (value : String) : Except Usage Progress :=
  if key ∈ p.given then .error (.argumentConflict key)
  else
    match store p.options key value with
    | .ok options => .ok { p with given := key :: p.given, options }
    | .error u => .error u

/-- Settle the option whose value was the next argument, if there is one. -/
def settlePending (p : Progress) : Except Usage Progress :=
  match p.pending with
  | none => .ok p
  | some (key, none) => .error (.invalidValue key)
  | some (key, some value) => { p with pending := none }.settle key value

/-- Meet an option, with its value if that stands in the same argument. -/
def meet (p : Progress) (key : Key) (value? : Option String) : Except Usage Progress := do
  let p ← p.settlePending
  match value? with
  | some value => p.settle key value
  | none =>
    if key.takesValue then .ok { p with pending := some (key, none) } else p.settle key ""

/-- Meet an argument with a long name: what stands behind the two hyphens is given. -/
def meetLong (p : Progress) (argument : String) (cs : List Char) : Except Usage Progress :=
  let name := cs.takeWhile (· ≠ '=')
  match Key.ofLong? (String.ofList name), cs.dropWhile (· ≠ '=') with
  | none, _ => .error (.unknownArgument argument)
  | some key, [] => p.meet key none
  | some key, _ :: value =>
    if key.takesValue then p.meet key (some (String.ofList value)) else .error (.tooManyValues key)

/-- Meet an argument of letters: what stands behind the hyphen is given. -/
def meetLetters (p : Progress) (argument : String) : List Char → Except Usage Progress
  | [] => .ok p
  | c :: cs =>
    match Key.ofLetter? c with
    | none => .error (.unknownArgument argument)
    | some key =>
      if key.takesValue then
        match cs with
        | [] => p.meet key none
        | '=' :: value => p.meet key (some (String.ofList value))
        | value => p.meet key (some (String.ofList value))
      else
        match p.meet key none with
        | .ok p => p.meetLetters argument cs
        | .error u => .error u

/-- Meet an argument that names no option: it is the value of the option before it, if that still
wants one. -/
def meetValue (p : Progress) (argument : String) : Except Usage Progress :=
  match p.pending with
  | some (key, none) => .ok { p with pending := some (key, some argument) }
  | _ => .error (.unknownArgument argument)

/-- Meet the arguments one after the other.  After `--` nothing names an option. -/
def meetAll (p : Progress) : List String → Except Usage Progress
  | [] => p.settlePending
  | argument :: rest =>
    match argument.toList with
    | ['-', '-'] =>
      match rest with
      | [] => p.settlePending
      | next :: _ => .error (.unknownArgument next)
    | '-' :: '-' :: cs => p.meetLong argument cs >>= fun p => p.meetAll rest
    | '-' :: c :: cs => p.meetLetters argument (c :: cs) >>= fun p => p.meetAll rest
    | _ => p.meetValue argument >>= fun p => p.meetAll rest

end Progress

/-- Read the arguments. -/
def readOptions (arguments : List String) : Except Usage Options := do
  let p ← Progress.meetAll {} arguments
  if .rom ∈ p.given then return p.options else .error (.missingArgument .rom)

end CommandLine
end Famicom
