import GraphDoc.Document.Query
import GraphDoc.Options.Payload

/-!
# GraphDoc.Document.Mutation

Documents that write: create, update and delete a row.

Every mutation declares the one variable `input`.  The row that it answers with
never shows relations, and a delete answers with nothing of the row.  Without
values the document is a template, and its variable is filled in later.
-/

namespace GraphDoc

/-! ## inputs -/

/-- A column as the input of a mutation sees it. -/
structure InputField where
  name : Text
  wireType : Text
  isArray : Bool
  required : Bool
  deriving DecidableEq, Repr

/-- The columns that an input may set; in a patch none is required. -/
def writableFields (table : Table) (isPatch : Bool) : List InputField :=
  table.plainFields.map fun f => ⟨f.name, f.wireType, f.isArray, !isPatch && !f.nullable⟩

/-- The columns that an input of a named kind may set. -/
def writableFieldsOf (table : Table) (kind : Value) : Except Error (List InputField) :=
  if kind.text = "create" then .ok (writableFields table false)
  else if kind.text = "patch" then .ok (writableFields table true)
  else .error (.unknownInputKind kind.text)

/-- Checks that a name can be written. -/
def checkWritable (table : Table) (given : Value) : Except Error Unit := do
  let key ← given.toKey
  match key with
  | .name t =>
    if table.plainNames.contains t then return () else throw (.unknownField table.name key)
  | .stray _ => throw (.unknownField table.name key)

/-- The values that an input sets, each under a name that can be written. -/
def writtenMembers (table : Table) (values : Value) : Except Error Members := do
  let _ ← (← values.walk).mapM (checkWritable table)
  let entries ← values.bag
  return entries.map fun e => (e.1.text, e.2)

/-- The variables of a mutation around its input. -/
def inputValue (input : Members) : Members := [("input", .obj input)]

def createValues (table : Table) (values : Value) : Except Error Members := do
  let ms ← writtenMembers table values
  return inputValue [(Naming.singular table.name, .obj ms)]

def updateValues (table : Table) (rowId patch : Value) : Except Error Members := do
  let ms ← writtenMembers table patch
  return inputValue [("id", rowId), ("patch", .obj ms)]

def deleteValues (rowId : Value) : Members := inputValue [("id", rowId)]

/-! ## documents -/

def mutationDocument (action inputType : Text) (table : Table) (payload : List Node) : Document :=
  let root := Naming.mutationField action table.name
  { kind := .mutation
    name := root ++ "Mutation"
    definitions := [⟨"input", .nonNull (.named inputType)⟩]
    root := .branch root [.bound "input"] payload }

/-- The row that a mutation answers with. -/
def rowPayload (registry : Registry) (tables : List Table) (table : Table)
    (selection : Option Spec) : Except Error (List Node) := do
  let nodes ← selectionNodes registry tables true table selection
  return [.branch (Naming.singular table.name) [] nodes]

/-- The creation of a row; without values a template. -/
def createMutation (registry : Registry) (tables : List Table) (table : Table)
    (selection : Option Spec) (values : Value) : Except Error BoundDocument := do
  let payload ← rowPayload registry tables table selection
  let bound ← if values.isNull then pure [] else createValues table values
  return ⟨mutationDocument "create" (Naming.createInputType table.name) table payload, bound⟩

/-- The update of a row; without a row a template, which cannot have a
patch. -/
def updateMutation (registry : Registry) (tables : List Table) (table : Table)
    (selection : Option Spec) (rowId patch : Value) : Except Error BoundDocument := do
  if !patch.isNull && rowId.isNull then throw (.options (.patchWithoutRow table.name))
  let payload ← rowPayload registry tables table selection
  let bound ←
    if rowId.isNull then pure [] else updateValues table rowId (patch.orElse (.obj []))
  return ⟨mutationDocument "update" (Naming.updateInputType table.name) table payload, bound⟩

/-- The deletion of a row; without a row a template. -/
def deleteMutation (table : Table) (rowId : Value) : BoundDocument :=
  ⟨mutationDocument "delete" (Naming.deleteInputType table.name) table [.plain "clientMutationId"],
    if rowId.isNull then [] else deleteValues rowId⟩

end GraphDoc
