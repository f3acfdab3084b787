import GraphDoc.Json.Parser
import GraphDoc.Schema.WireType
import GraphDoc.Text.Encoding
import GraphDoc.Value.Key

/-!
# GraphDoc.Error

What can go wrong on the way from a request to a document, by cause.

`Error.message` is the one place where the wording of each cause is written.
Causes fall into two groups: a *refusal* says what is wrong with the request,
and a `Misfit` says that some value has not the shape in which it was used.
-/

namespace GraphDoc

/-! ## causes -/

/-- A value that has not the shape in which it was used. -/
inductive Misfit where
  /-- Members, or the letters of a text, were asked of a value without them. -/
  | noMembers
  /-- A value that has no items was walked over, or values that cannot be keys
  or cannot be ordered were used so. -/
  | noItems
  /-- A member that must be there is not. -/
  | absent (key : Text)
  /-- The first character was asked of an empty text. -/
  | noCharacter
  /-- There is no table at an index. -/
  | noTable (index : Int)
  deriving Repr

inductive OptionsFault where
  | offsetWithCursor
  | notACount (option : Text) (given : Value)
  | limitAndFirst (limit first : Value)
  | unknownQueryOptions (keys : List Value)
  | unknownMutationOptions (keys : List Value)
  | orderEntry (given : Value)
  | orderDirection (given : Text) (field : Value)
  | patchWithoutRow (table : Text)
  deriving Repr

inductive SelectionFault where
  | noMapping (path : Text) (given : Value)
  | entry (path : Text) (given : Value)
  | empty (table : Text)
  | unknownPreset (given : Text)
  deriving Repr

inductive TableProblem where
  | duplicateTable (table : Text)
  | duplicateField (table field : Text)
  | duplicateRelation (table relation : Text)
  | danglingRelation (table relation target : Text)
  deriving DecidableEq, Repr

/-- Why a file cannot be read. -/
inductive FileFault where
  | missing
  | directory
  deriving DecidableEq, Repr

/-- What can go wrong, by cause. -/
inductive Error where
  | invalidName (kind : Text) (given : Value)
  | unknownField (table : Text) (field : Key)
  | notARelation (table field : Text)
  | unknownRelatedTable (table relation target : Text)
  | unsupportedType (table field wireType : Text)
  | options (fault : OptionsFault)
  | selection (fault : SelectionFault)
  | metadata (problems : List TableProblem)
  | unknownOperation (given : Text)
  | unknownTable (given : Key) (known : List Text)
  | unknownInputKind (given : Text)
  | unknownInputOperation (given : Text)
  | registryFrozen
  | alreadyRegistered (type : WireType)
  | unknownWireType (given : Value)
  | unknownRelationKind (given : Value)
  | unknownDocumentKind (given : Value)
  | pairSize (index size : Nat)
  | json (fault : Json.Error)
  | unencodable (gap : Text.Gap)
  | nullInPath
  | file (fault : FileFault) (path : Text)
  | misfit (fault : Misfit)

/-! ## wording -/

def Value.kind : Value → Text
  | null => "NoneType"
  | missing => "_Missing"
  | bool _ => "bool"
  | int _ => "int"
  | float _ => "float"
  | str _ => "str"
  | arr _ => "list"
  | obj _ => "dict"

def OptionsFault.message : OptionsFault → Text
  | offsetWithCursor => "offset pagination cannot be combined with after/before cursors"
  | notACount option given =>
    option ++ " must be a non-negative integer, got " ++ given.literal
  | limitAndFirst limit first =>
    "limit (" ++ limit.literal ++ ") and first (" ++ first.literal ++ ") disagree"
  | unknownQueryOptions keys => "Unknown query options: " ++ (Value.arr keys).literal
  | unknownMutationOptions keys => "Unknown mutation options: " ++ (Value.arr keys).literal
  | orderEntry given => "Invalid orderBy entry: " ++ given.literal
  | orderDirection given field =>
    "Unknown order direction '" ++ given ++ "' for '" ++ field.text ++ "'"
  | patchWithoutRow table => "update on '" ++ table ++ "' has a patch but no row id"

def SelectionFault.message : SelectionFault → Text
  | noMapping path given =>
    let place : Text := if path.isEmpty then "<root>" else path
    "Selection at '" ++ place ++ "' must be a mapping, got " ++ given.kind
  | entry path given =>
    "Selection for '" ++ path ++ "' must be true, false or \x7b'select': \x7b...\x7d\x7d, got " ++
      given.literal
  | empty table => "Selection on table '" ++ table ++ "' selects no fields"
  | unknownPreset given => "Unknown field selection preset '" ++ given ++ "'"

def TableProblem.message : TableProblem → Text
  | duplicateTable table => "Duplicate table: " ++ table
  | duplicateField table field => "Duplicate field '" ++ field ++ "' on table " ++ table
  | duplicateRelation table relation =>
    "Duplicate relation '" ++ relation ++ "' on table " ++ table
  | danglingRelation table relation target =>
    "Relation '" ++ relation ++ "' on table " ++ table ++ " references unknown table: " ++ target

def Misfit.message : Misfit → Text
  | noMembers => "a value has no members"
  | noItems => "a value has no items"
  | absent key => "a value has no member " ++ Text.quoted key
  | noCharacter => "a text is empty"
  | noTable index => "there is no table " ++ Text.ofInt index

def FileFault.message : FileFault → Text
  | missing => "[Errno 2] No such file or directory"
  | directory => "[Errno 21] Is a directory"

/-- The operations of a request, in the order in which messages list them. -/
def operationNames : List Text := ["query", "find-one", "count", "create", "update", "delete"]

/-- The operations of an input, in the order in which messages list them. -/
def inputOperationNames : List Text := ["create", "update", "patch"]

/-- Names in round brackets. -/
def alternatives (names : List Text) : Text :=
  "(" ++ Text.separated ", " (names.map Text.quoted) ++ ")"

/-- The wording of a cause. -/
def Error.message : Error → Text
  | invalidName kind given => "Invalid " ++ kind ++ " name: " ++ given.literal
  | unknownField table field =>
    "Field '" ++ field.text ++ "' does not exist on table '" ++ table ++ "'"
  | notARelation table field =>
    "Field '" ++ field ++ "' on table '" ++ table ++
      "' is not a relation; nested selection is not allowed"
  | unknownRelatedTable table relation target =>
    "Relation '" ++ table ++ "." ++ relation ++ "' references unknown table '" ++ target ++ "'"
  | unsupportedType table field wireType =>
    "No sub-selection registered for type '" ++ wireType ++ "' (field '" ++ table ++ "." ++ field ++
      "')"
  | options fault => fault.message
  | selection fault => fault.message
  | metadata problems =>
    "Table metadata validation failed: " ++ textsLiteral (problems.map TableProblem.message)
  | unknownOperation given =>
    "Unknown operation '" ++ given ++ "', expected one of " ++ alternatives operationNames
  | unknownTable given known =>
    "Unknown table '" ++ given.text ++ "'; known tables: " ++ textsLiteral known
  | unknownInputKind given => "unknown input operation '" ++ given ++ "'"
  | unknownInputOperation given =>
    "unknown operation '" ++ given ++ "', expected one of " ++ alternatives inputOperationNames
  | registryFrozen => "expansion registry is frozen"
  | alreadyRegistered type => "generator for " ++ type.text ++ " is already registered"
  | unknownWireType given => given.literal ++ " is not a composite type"
  | unknownRelationKind given => given.literal ++ " is not a kind of relation"
  | unknownDocumentKind given => given.literal ++ " is not a kind of document"
  | pairSize index size =>
    "dictionary update sequence element #" ++ Text.ofNat index ++ " has length " ++
      Text.ofNat size ++ "; 2 is required"
  | json fault => fault.message
  | unencodable gap => gap.message
  | nullInPath => "embedded null byte"
  | file fault path => fault.message ++ ": " ++ Text.quoted path
  | misfit fault => fault.message

/-- Whether a cause lies in the request and is answered with its message;
the others break the work off. -/
def Error.isRefusal : Error → Bool
  | registryFrozen => false
  | json fault => fault.fault.problem ≠ .deepNesting
  | misfit _ => false
  | _ => true

end GraphDoc
