import GraphDoc.CommandLine.Arguments
import GraphDoc.Json.Printer

/-!
# GraphDoc.CommandLine.Run

What a command line answers.

A request that succeeds prints its document and the values of its variables and
ends with code zero.  A refused one prints the reason on the error stream and
ends with code two, and so do wrong usage and arguments that cannot be read.
A value of a shape that nothing provides for breaks the run off.
-/

namespace GraphDoc.CommandLine

inductive Outcome where
  | help
  | usage
  | answered (text : Text) (values : Members)
  | refused (message : Text)
  | broken (error : Error)

/-- The end of a command line that is not run. -/
def Stop.outcome : Stop → Outcome
  | help => .help
  | usage => .usage
  | broken error => .broken error

def Arguments.request (a : Arguments) : Request where
  table := a.table
  select := a.select
  options := a.options
  values := a.values
  rowId := a.rowId
  patch := a.patch

def Arguments.run (files : Files) (a : Arguments) : Outcome :=
  match (do a.request.run a.operation (← loadTables files a.metadata)) with
  | .ok answer => .answered answer.document.text answer.document.values
  | .error e => if e.isRefusal then .refused e.message else .broken e

def run (files : Files) (args : List Text) : Outcome :=
  match readArguments args with
  | .ok a => a.run files
  | .error stop => stop.outcome

/-! ## what is printed -/

def Outcome.output : Outcome → Text
  | .answered text values =>
    text ++ "\n\n--- Variables ---\n" ++ Json.indented (.obj values) ++ "\n"
  | _ => []

def Outcome.errors : Outcome → Text
  | .refused message => "error: " ++ message ++ "\n"
  | _ => []

def Outcome.code : Outcome → Nat
  | .help => 0
  | .usage => 2
  | .answered _ _ => 0
  | .refused _ => 2
  | .broken _ => 1

end GraphDoc.CommandLine
