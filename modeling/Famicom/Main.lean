/-
# The program

Reads its options and the image they name, runs a session, and prints: what is reported on
standard error, what is asked for on standard output.  Nothing is decided here.
-/

import Famicom.CommandLine.Help
import Famicom.CommandLine.Session

open Famicom.CommandLine in
/-- Run the program; the answer is its exit code. -/
def main (arguments : List String) : IO UInt32 := do
  match readOptions arguments with
  | .error .displayHelp =>
    IO.println help
    return 0
  | .error usage =>
    IO.eprintln ("error: " ++ usage.message)
    return 2
  | .ok options =>
    let image ← IO.FS.readBinFile options.rom
    let session := run (some .info) options image.data
    session.notices.forM fun notice => IO.eprintln notice.render
    IO.print session.printed
    if options.screenshot.isSome then
      IO.eprintln "WARN screenshots are not written"
    match session.fault? with
    | none => return 0
    | some fault =>
      IO.eprintln ("ERROR " ++ fault.message)
      return 1
