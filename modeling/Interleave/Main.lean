import Interleave.CommandLine

set_option autoImplicit false

/-! The program: reads the file and the standard input that the arguments call for, and prints
what comes of them. -/

namespace Interleave.CommandLine

def readFile? (name : String) : IO (Option (List UInt8)) := do
  try
    return some (← IO.FS.readBinFile name).toList
  catch _ => return none

end Interleave.CommandLine

open Interleave

def main (arguments : List String) : IO UInt32 := do
  match CommandLine.parse arguments with
  | .error _ => return UInt32.ofNat CommandLine.usageFailure
  | .ok command =>
      let content ← match command.file? with
        | some name => CommandLine.readFile? name
        | none => pure none
      let input ← if command.readsInput then
          pure (← (← IO.getStdin).readBinToEnd).toList
        else pure []
      let report := CommandLine.execute content input command
      IO.print report.output
      return UInt32.ofNat report.status
