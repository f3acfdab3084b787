import GraphDoc.CommandLine.Run

/-!
# GraphDoc.Main

The command line as a program: reads the metadata file that the arguments name
and prints what `GraphDoc.CommandLine.run` answers.
-/

namespace GraphDoc

def readFile (path : Text) : IO (Except FileFault Text) := do
  try
    return .ok (Text.ofString (← IO.FS.readFile path.shown))
  catch e =>
    match e with
    | .inappropriateType .. => return .error .directory
    | _ => return .error .missing

/-- The files that a command line reads. -/
def filesOf (args : List Text) : IO Files := do
  match CommandLine.readArguments args with
  | .ok a =>
    let path := metadataPath a.metadata
    let content ← readFile path
    return fun p => if p = path then content else .error .missing
  | .error _ => return fun _ => .error .missing

end GraphDoc

def main (args : List String) : IO UInt32 := do
  let args := args.map GraphDoc.Text.ofString
  let outcome := GraphDoc.CommandLine.run (← GraphDoc.filesOf args) args
  IO.print outcome.output.shown
  IO.eprint outcome.errors.shown
  return outcome.code.toUInt32
