import GraphDoc.Document.Mutation
import GraphDoc.Schema.Metadata

/-!
# GraphDoc.Request

Requests: an operation on a table with everything that it may take, and the
document that answers it.

`Request.run` works on a set of tables.  `loadTables` reads such a set from a
metadata file; files are a function from paths to contents, so that reading is
part of no computation here.
-/

namespace GraphDoc

/-! ## operations -/

inductive Operation where
  | query
  | findOne
  | count
  | create
  | update
  | delete
  deriving DecidableEq, Repr

namespace Operation

def text : Operation → String
  | query => "query"
  | findOne => "find-one"
  | count => "count"
  | create => "create"
  | update => "update"
  | delete => "delete"

def all : List Operation := [query, findOne, count, create, update, delete]

def ofText? (word : Text) : Option Operation := all.find? fun o => o.text == word

/-- The operation of a word, which must be one. -/
def ofText (word : Text) : Except Error Operation :=
  match ofText? word with
  | some o => .ok o
  | none => .error (.unknownOperation word)

end Operation

/-! ## tables -/

abbrev Files := Text → Except FileFault Text

/-- The metadata file that is read unless another one is named. -/
def defaultMetadataPath : Text := "schema/tables.json"

/-- The metadata file of a request; an empty path names none. -/
def metadataPath (requested : Option Text) : Text :=
  match requested with
  | some path => if path.isEmpty then defaultMetadataPath else path
  | none => defaultMetadataPath

/-- Why a path is the path of no file: it has no bytes, or one of them is
zero. -/
def pathProblem? (path : Text) : Option Error :=
  match path.gap? CodePoint.isByte 0 with
  | some gap => some (.unencodable gap)
  | none => if path.contains '\x00' then some .nullInPath else none

/-- Text with every line break as a line feed. -/
def unifiedBreaks : Text → Text
  | [] => []
  | [.char '\r'] => ['\n']
  | .char '\r' :: c :: rest =>
    if c = '\n' then unifiedBreaks (c :: rest) else .char '\n' :: unifiedBreaks (c :: rest)
  | c :: rest => c :: unifiedBreaks rest

/-- The tables of a metadata text, which must be free of problems. -/
def tablesOfText (text : Text) : Except Error (List Table) :=
  match Json.parse (unifiedBreaks text) with
  | .error fault => .error (.json fault)
  | .ok payload => do
    let tables ← tablesOfMetadata payload
    let found := problems tables
    if found.isEmpty then return tables else throw (.metadata found)

def loadTables (files : Files) (requested : Option Text) : Except Error (List Table) :=
  let path := metadataPath requested
  match pathProblem? path with
  | some problem => .error problem
  | none =>
    match files path with
    | .ok text => tablesOfText text
    | .error fault => .error (.file fault path)

/-! ## requests -/

/-- An operation on a table; what is not given is `null`. -/
structure Request where
  table : Key
  select : Value := .null
  options : Value := .null
  values : Value := .null
  rowId : Value := .null
  patch : Value := .null

/-- The answer to a request, with the hash of the document. -/
structure Answer where
  operation : Operation
  table : Text
  select : Option Spec
  document : BoundDocument
  digest : Text

/-- The payload selection of a mutation: the selection of the request, or else
the one in its options. -/
def payloadSelection (spec : Option Spec) (options : Value) : Except Error (Option Spec) := do
  let fromOptions ← payloadOfOptions options
  match spec with
  | some entries => return some entries
  | none => return fromOptions

def Request.document (r : Request) (tables : List Table) (table : Table) (spec : Option Spec) :
    Operation → Except Error BoundDocument
  | .query => do
    let o ← RowOptions.ofValue r.options
    rowsQuery .standard tables table spec o
  | .findOne => rowQuery .standard tables table spec (.str "id") (.str "UUID") r.rowId
  | .count => do
    let o ← RowOptions.ofValue r.options
    countQuery table o
  | .create => do
    let selection ← payloadSelection spec r.options
    createMutation .standard tables table selection r.values
  | .update => do
    let selection ← payloadSelection spec r.options
    updateMutation .standard tables table selection r.rowId r.patch
  | .delete => do
    let _ ← payloadSelection spec r.options
    return deleteMutation table r.rowId

/-- Answers a request on a set of tables. -/
def Request.run (r : Request) (operation : Operation) (tables : List Table) :
    Except Error Answer := do
  let table ← tableNamed tables r.table
  let spec ← Spec.ofValue r.select
  let document ← r.document tables table spec operation
  return ⟨operation, table.name, spec, document, ← document.digest⟩

/-- Answers a request whose operation is a word and whose tables may fail to
load; the operation is looked at first. -/
def Request.runNamed (r : Request) (operation : Text) (tables : Except Error (List Table)) :
    Except Error Answer := do
  let operation ← Operation.ofText operation
  r.run operation (← tables)

end GraphDoc
