import GraphDoc.Selection.Nodes
import GraphDoc.Document.Printer
import GraphDoc.Options.Rows

/-!
# GraphDoc.Document.Query

Documents that read: the rows of a table by pages, one row by its key, and the
number of rows.

An option that is set declares a variable, binds it to an argument of the root
field and gives it a value; `Binding` keeps the three together.
-/

namespace GraphDoc

/-! ## variables -/

/-- A variable with its type and its value. -/
structure Binding where
  name : Text
  type : TypeRef
  value : Value
  deriving Repr

namespace Binding

/-- The declaration of a variable. -/
def definition (b : Binding) : VariableDefinition := ⟨b.name, b.type⟩

/-- The argument that takes a variable. -/
def argument (b : Binding) : Argument := .bound b.name

/-- The value of a variable under its name. -/
def member (b : Binding) : Text × Value := (b.name, b.value)

end Binding

/-- The variable of an option, if the option is set. -/
def optionBinding (set : Bool) (name : Text) (type : TypeRef) (value : Value) : List Binding :=
  if set then [⟨name, type, value⟩] else []

def filterTypeRef (table : Table) : TypeRef := .named (Naming.filterType table.name)

/-- The type of an order on a table: a list without gaps. -/
def orderTypeRef (table : Table) : TypeRef :=
  .nonNull (.list (.nonNull (.named (Naming.orderByType table.name))))

/-- The variables of a query, in order. -/
def rowBindings (table : Table) (o : RowOptions) : Except Error (List Binding) := do
  let order ← o.orderWords
  pure <|
    optionBinding (!o.limit.isNull) "first" (.named "Int") o.limit ++
    optionBinding (!o.offset.isNull) "offset" (.named "Int") o.offset ++
    optionBinding (!o.after.isNull) "after" (.named "Cursor") o.after ++
    optionBinding (!o.before.isNull) "before" (.named "Cursor") o.before ++
    optionBinding o.filter.truthy "filter" (filterTypeRef table) o.filter ++
    optionBinding (!o.order.isEmpty) "orderBy" (orderTypeRef table) (.arr order)

/-! ## documents -/

def pageInfoFields : List Text := ["hasNextPage", "hasPreviousPage", "startCursor", "endCursor"]

/-- The fields of a connection around the fields of a row. -/
def connectionNodes (pageInfo : Bool) (rows : List Node) : List Node :=
  [.plain "totalCount", .branch "nodes" [] rows] ++
    if pageInfo then [.branch "pageInfo" [] (pageInfoFields.map .plain)] else []

/-- The document that asks a root field for some fields. -/
def operationDocument (kind : OperationKind) (name root : Text) (bindings : List Binding)
    (nodes : List Node) : Document where
  kind := kind
  name := name
  definitions := bindings.map Binding.definition
  root := .branch root (bindings.map Binding.argument) nodes

/-- The rows of a table, page by page. -/
def rowsQuery (registry : Registry) (tables : List Table) (table : Table) (spec : Option Spec)
    (o : RowOptions) : Except Error BoundDocument := do
  o.check
  let root := Naming.plural table.name
  let rows ← selectionNodes registry tables false table spec
  let bindings ← rowBindings table o
  let nodes := connectionNodes (o.pageInfo || o.byCursor) rows
  return ⟨operationDocument .query (root ++ "Query") root bindings nodes,
    bindings.map Binding.member⟩

/-- One row of a table by its key. -/
def rowQuery (registry : Registry) (tables : List Table) (table : Table) (spec : Option Spec)
    (keyField keyType keyValue : Value) : Except Error BoundDocument := do
  let field ← checkName "field" keyField
  let type ← checkName "type" keyType
  let root := Naming.singular table.name
  let nodes ← selectionNodes registry tables false table spec
  let binding : Binding := ⟨field, .nonNull (.named type), keyValue⟩
  return ⟨operationDocument .query (root ++ "Query") root [binding] nodes,
    if keyValue.isNull then [] else [binding.member]⟩

/-- The number of rows of a table. -/
def countQuery (table : Table) (o : RowOptions) : Except Error BoundDocument := do
  o.check
  let root := Naming.plural table.name
  let bindings := optionBinding o.filter.truthy "filter" (filterTypeRef table) o.filter
  return ⟨operationDocument .query (root ++ "CountQuery") root bindings [.plain "totalCount"],
    bindings.map Binding.member⟩

end GraphDoc
