import GraphDoc.Schema.Table
import GraphDoc.Selection.Basic

/-!
# GraphDoc.Selection.Choice

Short ways to say what to read from a table, each of which comes down to a
selection.

* A preset is a word: `minimal`, `display`, `all` or `full`.
* A `Choice` lists columns and relations to read or to leave out.

`choiceSelection` gives the selection; `choiceProblems` tells beforehand what a
choice names that the table does not have.
-/

namespace GraphDoc

/-! ## rows of related tables -/

/-- The columns to read of a related row, best first: its keys, then the columns
that tell a person most about it. -/
def displayColumns : List Text := [
  "id", "nodeId", "displayName", "fullName", "preferredName", "nickname", "firstName", "lastName",
  "username", "email", "name", "title", "label", "slug", "code", "createdAt", "updatedAt"]

/-- How many columns of a related row are read. -/
def relatedLimit : Nat := 8

/-- The columns of a related row that are read: keys first, then the columns
that tell most, then the others in order. -/
def displayNames (related : Table) : List Text :=
  let plain := related.plainNames
  let wanted := displayColumns ++ plain
  ((wanted.filter plain.contains).eraseDups).take relatedLimit

/-- The selection of names, each as a leaf. -/
def leaves (names : List Text) : Spec := names.map fun name => (Key.name name, .leaf)

/-- The selection on the table at the far end of the relation that a caller
names; of relations of one name the first counts. -/
def displaySelection (table : Table) (tables : List Table) (relation : Key) :
    Except Error Spec :=
  match table.relationOf? relation with
  | some r => (r.resolve table tables).map fun related => leaves (displayNames related)
  | none => .error (.misfit .noMembers)

/-! ## presets -/

inductive Preset where
  | minimal
  | display
  | all
  | full
  deriving DecidableEq, Repr

namespace Preset

def text : Preset → String
  | minimal => "minimal"
  | display => "display"
  | all => "all"
  | full => "full"

def ofText? (word : Text) : Option Preset :=
  [minimal, display, all, full].find? fun p => p.text == word

/-- The columns that a preset reads, of the plain columns of a table: the first
three, the first five or the first half if that is more, or all. -/
def columns (p : Preset) (plain : List Text) : List Text :=
  match p with
  | minimal => plain.take 3
  | display => plain.take (max 5 (plain.length / 2))
  | all => plain
  | full => plain

end Preset

def addLeaves (spec : Spec) (names : List Text) : Spec :=
  names.foldl (fun done name => Assoc.put done (Key.name name) .leaf) spec

/-- Adds relations by name, each with its display columns. -/
def addRelations (table : Table) (tables : List Table) (spec : Spec) :
    List Text → Except Error Spec
  | [] => .ok spec
  | name :: rest => do
    let inner ← displaySelection table tables (Key.name name)
    addRelations table tables (Assoc.put spec (Key.name name) (.nested inner)) rest

def Preset.selection (p : Preset) (table : Table) (tables : List Table) : Except Error Spec :=
  let columns := addLeaves [] (p.columns table.plainNames)
  match p with
  | .full => addRelations table tables columns (table.relations.toList.map Relation.field)
  | _ => .ok columns

/-- The selection of a preset's word. -/
def wordSelection (table : Table) (tables : List Table) (word : Text) : Except Error Spec :=
  match Preset.ofText? word with
  | some p => p.selection table tables
  | none => .error (.selection (.unknownPreset word))

/-! ## choices -/

/-- A choice as it was given: the columns to read, what to read of relations,
relations to read for display, names to leave out, and how deep to go. -/
structure Choice where
  select : Value := .null
  included : Value := .obj []
  displayed : Value := .arr []
  excluded : Value := .arr []
  maxDepth : Value := .null

namespace Choice

/-- The value of a member in the first of two spellings that is there. -/
def spelledMember (ms : Members) (spelling other : Text) : Value :=
  match ms.lookup spelling with
  | some v => v
  | none => Value.ofOption (ms.lookup other)

def ofMembers (ms : Members) : Choice where
  select := Value.ofOption (ms.lookup ("select" : Text))
  included := (Value.ofOption (ms.lookup ("include" : Text))).orElse (.obj [])
  displayed := (spelledMember ms "includeRelations" "include_relations").orElse (.arr [])
  excluded := (Value.ofOption (ms.lookup ("exclude" : Text))).orElse (.arr [])
  maxDepth := spelledMember ms "maxDepth" "max_depth"

/-- The columns to read first: those that are named, of those that exist, or
all plain ones. -/
def columns (c : Choice) (table : Table) : Except Error (List Text) :=
  if c.select.isNull then .ok table.plainNames
  else do
    let names ← c.select.walk
    return names.filterMap fun v => (table.fieldOf? (Key.ofValue v)).map Field.name

/-- The relations to read for display, of those that exist. -/
def relations (c : Choice) (table : Table) : Except Error (List Text) := do
  let names ← c.displayed.walk
  return names.filterMap fun v => (table.relationOf? (Key.ofValue v)).map Relation.field

/-- The selection of a list of names, each as a leaf. -/
def listedLeaves (spec : Spec) : List Value → Except Error Spec
  | [] => .ok spec
  | v :: rest => do
    let key ← v.toKey
    listedLeaves (Assoc.put spec key .leaf) rest

/-- Adds what is to be read of relations: `true` reads for display, a list
reads its names. -/
def addIncluded (table : Table) (tables : List Table) (spec : Spec) :
    List (Text × Value) → Except Error Spec
  | [] => .ok spec
  | (name, wanted) :: rest =>
    match table.relation? name, wanted with
    | some _, .bool true => do
      let inner ← displaySelection table tables (Key.name name)
      addIncluded table tables (Assoc.put spec (Key.name name) (.nested inner)) rest
    | some _, .arr names => do
      let inner ← listedLeaves [] names
      addIncluded table tables (Assoc.put spec (Key.name name) (.nested inner)) rest
    | _, _ => addIncluded table tables spec rest

/-- Leaves names out; nothing is looked up once the selection is empty. -/
def dropExcluded (spec : Spec) : List Value → Except Error Spec
  | [] => .ok spec
  | v :: rest =>
    if spec.isEmpty then dropExcluded spec rest
    else do
      let key ← v.toKey
      dropExcluded (Assoc.drop spec key) rest

/-- The selection of a choice: columns, relations for display, what is to be
read of relations, less what is left out. -/
def selection (c : Choice) (table : Table) (tables : List Table) : Except Error Spec := do
  let columns ← c.columns table
  let relations ← c.relations table
  let spec ← addRelations table tables (addLeaves [] columns) relations
  let spec ← addIncluded table tables spec (← c.included.members)
  dropExcluded spec (← c.excluded.walk)

end Choice

/-- The selection of a preset's word or of a choice; for display unless told
otherwise. -/
def choiceSelection (table : Table) (tables : List Table) (given : Value) : Except Error Spec :=
  match given with
  | .null => Preset.selection .display table tables
  | .str word => wordSelection table tables word
  | .obj ms => (Choice.ofMembers ms).selection table tables
  | _ => .error (.misfit .noMembers)

/-! ## problems of a choice -/

inductive ChoiceProblem where
  | unknownField (table : Text) (given : Value)
  | notARelation (table : Text) (given : Value)
  | unknownExcluded (table : Text) (given : Value)
  | depth

def ChoiceProblem.message : ChoiceProblem → Text
  | unknownField table given =>
    "Field '" ++ given.text ++ "' does not exist in table '" ++ table ++ "'"
  | notARelation table given =>
    "Field '" ++ given.text ++ "' is not a relational field in table '" ++ table ++ "'"
  | unknownExcluded table given =>
    "Exclude field '" ++ given.text ++ "' does not exist in table '" ++ table ++ "'"
  | depth => "maxDepth must be a number between 0 and 5"

namespace Choice

/-- The values of a list that name no column. -/
def withoutColumn (table : Table) (names : List Value) : Except Error (List Value) := do
  let keys ← names.mapM Value.toKey
  return (keys.filter fun key => (table.fieldOf? key).isNone).map Key.value

/-- Whether a value is a depth. -/
def isDepth : Value → Bool
  | .null => true
  | .bool _ => true
  | .int n => 0 ≤ n && n ≤ 5
  | _ => false

/-- What a choice names that a table does not have. -/
def problems (c : Choice) (table : Table) : Except Error (List ChoiceProblem) := do
  let selected ← withoutColumn table (← (c.select.orElse (.arr [])).walk)
  let related := (← c.displayed.walk) ++ (← c.included.walk)
  let unrelated := related.filter fun v => (table.relationOf? (Key.ofValue v)).isNone
  let excluded ← withoutColumn table (← c.excluded.walk)
  return selected.map (.unknownField table.name) ++ unrelated.map (.notARelation table.name) ++
    excluded.map (.unknownExcluded table.name) ++ if isDepth c.maxDepth then [] else [.depth]

end Choice

/-- What a preset's word or a choice names that a table does not have. -/
def choiceProblems (table : Table) (given : Value) : Except Error (List ChoiceProblem) :=
  match given with
  | .str _ => .ok []
  | .obj ms => (Choice.ofMembers ms).problems table
  | _ => .error (.misfit .noMembers)

end GraphDoc
