/-
# The explanation of the options
-/

import Famicom.CommandLine.Options

namespace Famicom
namespace CommandLine

/-- What an option does. -/
def Key.explanation : Key → String
  | rom => "Path to the iNES image"
  | frames => "Number of frames to run [60 if not given]"
  | dumpCpu => "Print the processor at the end"
  | dumpPpu => "Print the picture unit at the end"
  | buttons => "Buttons to hold, such as start,right or 0x88"
  | sampleRate => "Audio samples in a second [44100 if not given]"
  | screenshot => "Where to put the last frame"
  | help => "Print this explanation"

/-- An option with its explanation, on a line. -/
def Key.line (k : Key) : String :=
  let letter :=
    match k.letter? with
    | some c => "-" ++ c.toString ++ ", "
    | none => "    "
  let name := "--" ++ k.long ++ if k.takesValue then " VALUE" else ""
  "  " ++ letter ++ name ++ String.ofList (List.replicate (24 - name.length) ' ') ++ k.explanation

/-- The explanation of all options. -/
def help : String :=
  "\n".intercalate ("Run an iNES image for a number of frames" :: "" :: Key.all.map Key.line)

end CommandLine
end Famicom
