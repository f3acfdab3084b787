import GraphDoc.Expansion
import GraphDoc.Selection.Basic

/-!
# GraphDoc.Selection.Nodes

From a selection on a table to the fields that a document requests.

Without a selection every plain column is requested, composite ones with their
parts, and never a relation.  With one, each entry gives one field in the order
of the entries; a name is looked up among the relations first.  A relation to
many rows asks for the first page only.

A payload is the same walk with the relations left out; should nothing remain,
it falls back to the plain columns.
-/

namespace GraphDoc

/-- How many rows of a relation to many are requested. -/
def relationPage : Nat := 20

/-- The fields of all plain columns. -/
def defaultNodes (registry : Registry) (table : Table) : Except Error (List Node) :=
  table.plainFields.mapM (fieldNode registry table.name)

/-- The field of a relation around the fields of the related table. -/
def relationNode (relation : Relation) (inner : List Node) : Node :=
  match relation.kind.cardinality with
  | .singular => .branch relation.field [] inner
  | .plural =>
    .branch relation.field [⟨"first", .int relationPage⟩] [.branch "nodes" [] inner]

/-- A selection that requests something. -/
def nonemptyNodes (table : Table) (nodes : List Node) : Except Error (List Node) :=
  if nodes.isEmpty then .error (.selection (.empty table.name)) else .ok nodes

/-- The field of a column that a caller names, which must not carry a selection
of its own. -/
def columnNode (registry : Registry) (table : Table) (key : Key) (s : Selection) :
    Except Error Node :=
  match table.fieldOf? key with
  | none => .error (.unknownField table.name key)
  | some f =>
    match s with
    | .leaf => fieldNode registry table.name f
    | _ => .error (.notARelation table.name key.text)

mutual
/-- The fields of entries on a table; in a payload relations are left out. -/
def entryNodes (registry : Registry) (tables : List Table) (payload : Bool) (table : Table) :
    List (Key × Selection) → Except Error (List Node)
  | [] => .ok []
  | (key, s) :: rest =>
    match table.relationOf? key with
    | some relation =>
      if payload then entryNodes registry tables payload table rest
      else do
        let related ← relation.resolve table tables
        let inner ← relatedNodes registry tables related s
        let others ← entryNodes registry tables payload table rest
        return relationNode relation inner :: others
    | none => do
      let node ← columnNode registry table key s
      let others ← entryNodes registry tables payload table rest
      return node :: others

/-- The fields of a related table under what is selected of it. -/
def relatedNodes (registry : Registry) (tables : List Table) (table : Table) :
    Selection → Except Error (List Node)
  | .nested entries => do
    let nodes ← entryNodes registry tables false table entries
    nonemptyNodes table nodes
  | _ => do
    let nodes ← defaultNodes registry table
    nonemptyNodes table nodes
end

/-- The fields that a selection on a table requests. -/
def selectionNodes (registry : Registry) (tables : List Table) (payload : Bool) (table : Table)
    (spec : Option Spec) : Except Error (List Node) := do
  let nodes ← match spec with
    | none => defaultNodes registry table
    | some entries => entryNodes registry tables payload table entries
  let nodes ← if nodes.isEmpty && payload then defaultNodes registry table else pure nodes
  nonemptyNodes table nodes

end GraphDoc
