import GraphDoc.Options.Rows
import GraphDoc.Selection.Basic

/-!
# GraphDoc.Options.Payload

The options of a mutation.  There is one, in two spellings: which fields of the
row the mutation answers with.
-/

namespace GraphDoc

/-- Reads the payload selection out of an association, which must hold nothing
else. -/
def payloadOfEntries (entries : List (Key × Value)) : Except Error (Option Spec) := do
  let selection := Value.ofOption (spelled "fieldSelection" "field_selection" entries)
  let unknown := withoutOption "fieldSelection" "field_selection" entries
  if !unknown.isEmpty then
    throw (.options (.unknownMutationOptions (← sortedKeys unknown)))
  Spec.ofValue selection

/-- Reads the payload selection out of the options of a mutation; nothing given
means no selection. -/
def payloadOfOptions (raw : Value) : Except Error (Option Spec) :=
  if raw.truthy then do payloadOfEntries (← raw.bag) else .ok none

end GraphDoc
