import GraphDoc.Document.Mutation
import GraphDoc.Proofs.Steps

/-!
# GraphDoc.Proofs.Document.Shape

The documents of the operations, apart from the values that fill them.

A query document is made of the names of its table, of the fields of a row, and
of which options are there (`RowOptions.Presence`); the values of the options
go into the variables alone.  `rowsQuery_eq_ok`, `rowQuery_eq_ok`,
`countQuery_eq_ok`, `createMutation_eq_ok` and `updateMutation_eq_ok` say for each operation when
it succeeds, and with which document.
-/

namespace GraphDoc

/-! ## variables by presence -/

/-- Which options of a query are there. -/
structure RowOptions.Presence where
  limit : Bool
  offset : Bool
  after : Bool
  before : Bool
  filter : Bool
  order : Bool
  pageInfo : Bool
  deriving DecidableEq, Repr

/-- The presence of options, whatever their values. -/
def RowOptions.presence (o : RowOptions) : RowOptions.Presence where
  limit := !o.limit.isNull
  offset := !o.offset.isNull
  after := !o.after.isNull
  before := !o.before.isNull
  filter := o.filter.truthy
  order := !o.order.isEmpty
  pageInfo := o.pageInfo

/-- The declaration of an option that is there. -/
def declared (present : Bool) (name : Text) (type : TypeRef) : List VariableDefinition :=
  if present then [⟨name, type⟩] else []

/-- The variables of a query, by the options that are there. -/
def rowVariables (table : Table) (p : RowOptions.Presence) : List VariableDefinition :=
  declared p.limit "first" (.named "Int") ++ declared p.offset "offset" (.named "Int") ++
  declared p.after "after" (.named "Cursor") ++ declared p.before "before" (.named "Cursor") ++
  declared p.filter "filter" (filterTypeRef table) ++
  declared p.order "orderBy" (orderTypeRef table)

/-- An option that is bound is declared. -/
@[simp] theorem map_definition_optionBinding (set : Bool) (name : Text) (type : TypeRef)
    (value : Value) :
    (optionBinding set name type value).map Binding.definition = declared set name type := by
  cases set <;> rfl

/-- The options that are bound are the variables that are declared. -/
theorem map_definition_rowBindings {table : Table} {o : RowOptions} {bindings : List Binding}
    (h : rowBindings table o = .ok bindings) :
    bindings.map Binding.definition = rowVariables table o.presence := by
  simp only [rowBindings, bind_eq_ok, pure_eq_ok] at h
  obtain ⟨order, _, hb⟩ := h
  rw [← hb]
  simp [rowVariables, RowOptions.presence]

/-! ## documents of queries -/

/-- The document with a root field that takes all variables by their names. -/
def boundDocument (kind : OperationKind) (name root : Text)
    (definitions : List VariableDefinition) (nodes : List Node) : Document where
  kind := kind
  name := name
  definitions := definitions
  root := .branch root (definitions.map fun d => .bound d.name) nodes

/-- The document of an operation holds the definitions of what is bound. -/
theorem operationDocument_eq (kind : OperationKind) (name root : Text) (bindings : List Binding)
    (nodes : List Node) :
    operationDocument kind name root bindings nodes =
      boundDocument kind name root (bindings.map Binding.definition) nodes := by
  simp [operationDocument, boundDocument, Binding.argument, Binding.definition, Function.comp_def]

def rowsDocument (table : Table) (p : RowOptions.Presence) (rows : List Node) : Document :=
  boundDocument .query (Naming.plural table.name ++ "Query") (Naming.plural table.name)
    (rowVariables table p) (connectionNodes (p.pageInfo || (p.after || p.before)) rows)

/-- The names of the fields of a connection. -/
theorem map_name_connectionNodes (pageInfo : Bool) (rows : List Node) :
    (connectionNodes pageInfo rows).map Node.name =
      if pageInfo then ["totalCount", "nodes", "pageInfo"] else ["totalCount", "nodes"] := by
  cases pageInfo <;> rfl

def rowDocument (table : Table) (field type : Text) (nodes : List Node) : Document :=
  boundDocument .query (Naming.singular table.name ++ "Query") (Naming.singular table.name)
    [⟨field, .nonNull (.named type)⟩] nodes

def countDocument (table : Table) (filter : Bool) : Document :=
  boundDocument .query (Naming.plural table.name ++ "CountQuery") (Naming.plural table.name)
    (declared filter "filter" (filterTypeRef table)) [.plain "totalCount"]

variable {registry : Registry} {tables : List Table} {table : Table} {c : BoundDocument}

/-- A query succeeds if its options are accepted and its rows and values can be made. -/
theorem rowsQuery_eq_ok {spec : Option Spec} {o : RowOptions} :
    rowsQuery registry tables table spec o = .ok c ↔
      o.check = .ok () ∧ ∃ rows bindings,
        selectionNodes registry tables false table spec = .ok rows ∧
        rowBindings table o = .ok bindings ∧
        c = ⟨rowsDocument table o.presence rows, bindings.map Binding.member⟩ := by
  simp only [rowsQuery, bind_eq_ok, pure_eq_ok, operationDocument_eq]
  refine ⟨fun h => ?_, fun h => ?_⟩
  · obtain ⟨_, hcheck, rows, hrows, bindings, hb, hc⟩ := h
    rw [map_definition_rowBindings hb] at hc
    exact ⟨hcheck, rows, bindings, hrows, hb, hc.symm⟩
  · obtain ⟨hcheck, rows, bindings, hrows, hb, hc⟩ := h
    refine ⟨(), hcheck, rows, hrows, bindings, hb, ?_⟩
    rw [map_definition_rowBindings hb, hc]
    rfl

/-- A find-one succeeds if its key is named and the row can be made. -/
theorem rowQuery_eq_ok {spec : Option Spec} {keyField keyType keyValue : Value} :
    rowQuery registry tables table spec keyField keyType keyValue = .ok c ↔
      ∃ field type nodes,
        checkName "field" keyField = .ok field ∧ checkName "type" keyType = .ok type ∧
        selectionNodes registry tables false table spec = .ok nodes ∧
        c = ⟨rowDocument table field type nodes,
          if keyValue.isNull then [] else [(field, keyValue)]⟩ := by
  simp only [rowQuery, bind_eq_ok, pure_eq_ok, operationDocument_eq]
  refine ⟨fun h => ?_, fun h => ?_⟩
  · obtain ⟨field, hfield, type, htype, nodes, hnodes, hc⟩ := h
    exact ⟨field, type, nodes, hfield, htype, hnodes, hc.symm⟩
  · obtain ⟨field, type, nodes, hfield, htype, hnodes, hc⟩ := h
    exact ⟨field, hfield, type, htype, nodes, hnodes, hc.symm⟩

/-- A count succeeds if its options are accepted. -/
theorem countQuery_eq_ok {o : RowOptions} :
    countQuery table o = .ok c ↔
      o.check = .ok () ∧ c = ⟨countDocument table o.filter.truthy,
        (optionBinding o.filter.truthy "filter" (filterTypeRef table) o.filter).map
          Binding.member⟩ := by
  simp only [countQuery, bind_eq_ok, pure_eq_ok, operationDocument_eq,
    map_definition_optionBinding]
  refine ⟨fun h => ?_, fun h => ?_⟩
  · obtain ⟨_, hcheck, hc⟩ := h
    exact ⟨hcheck, hc.symm⟩
  · exact ⟨(), h.1, h.2.symm⟩

/-! ## documents of mutations -/

/-- The root of a mutation takes its one variable by its name. -/
theorem mutationDocument_eq (action inputType : Text) (table : Table) (payload : List Node) :
    mutationDocument action inputType table payload =
      boundDocument .mutation (Naming.mutationField action table.name ++ "Mutation")
        (Naming.mutationField action table.name) [⟨"input", .nonNull (.named inputType)⟩]
        payload := rfl

/-- The values of a creation; none for a template. -/
def createBag (table : Table) (values : Value) : Except Error Members :=
  if values.isNull then .ok [] else createValues table values

/-- The values of an update; none for a template. -/
def updateBag (table : Table) (rowId patch : Value) : Except Error Members :=
  if rowId.isNull then .ok [] else updateValues table rowId (patch.orElse (.obj []))

/-- A document around a payload, and the values of its variables. -/
theorem filled_eq_ok {payload : Except Error (List Node)} {bag : Except Error Members}
    {around : List Node → Document} :
    (do let nodes ← payload
        let values ← bag
        return ⟨around nodes, values⟩ : Except Error BoundDocument) = .ok c ↔
      ∃ nodes values, payload = .ok nodes ∧ bag = .ok values ∧ c = ⟨around nodes, values⟩ := by
  simp only [bind_eq_ok, pure_eq_ok]
  refine ⟨fun h => ?_, fun h => ?_⟩
  · obtain ⟨nodes, hnodes, values, hvalues, hc⟩ := h
    exact ⟨nodes, values, hnodes, hvalues, hc.symm⟩
  · obtain ⟨nodes, values, hnodes, hvalues, hc⟩ := h
    exact ⟨nodes, hnodes, values, hvalues, hc.symm⟩

/-- A creation first settles what it answers with, then the values. -/
theorem createMutation_eq (selection : Option Spec) (values : Value) :
    createMutation registry tables table selection values = (do
      let payload ← rowPayload registry tables table selection
      let bag ← createBag table values
      return ⟨mutationDocument "create" (Naming.createInputType table.name) table payload,
        bag⟩) := by
  unfold createMutation createBag
  cases values.isNull <;> rfl

/-- A creation succeeds if its answer and its values can be made. -/
theorem createMutation_eq_ok {selection : Option Spec} {values : Value} :
    createMutation registry tables table selection values = .ok c ↔
      ∃ payload bag,
        rowPayload registry tables table selection = .ok payload ∧
        createBag table values = .ok bag ∧
        c = ⟨mutationDocument "create" (Naming.createInputType table.name) table payload,
          bag⟩ := by
  rw [createMutation_eq, filled_eq_ok]

/-- A patch without a row is refused before anything else is looked at. -/
theorem updateMutation_eq (selection : Option Spec) (rowId patch : Value) :
    updateMutation registry tables table selection rowId patch =
      if !patch.isNull && rowId.isNull then .error (.options (.patchWithoutRow table.name))
      else do
        let payload ← rowPayload registry tables table selection
        let bag ← updateBag table rowId patch
        return ⟨mutationDocument "update" (Naming.updateInputType table.name) table payload,
          bag⟩ := by
  unfold updateMutation updateBag
  cases patch.isNull <;> cases rowId.isNull <;> rfl

/-- An update succeeds if a patch has its key and the answer and the values can be made.
-/
theorem updateMutation_eq_ok {selection : Option Spec} {rowId patch : Value} :
    updateMutation registry tables table selection rowId patch = .ok c ↔
      (patch.isNull = true ∨ rowId.isNull = false) ∧ ∃ payload bag,
        rowPayload registry tables table selection = .ok payload ∧
        updateBag table rowId patch = .ok bag ∧
        c = ⟨mutationDocument "update" (Naming.updateInputType table.name) table payload,
          bag⟩ := by
  rw [← filled_eq_ok, updateMutation_eq]
  cases patch.isNull <;> cases rowId.isNull <;> simp

end GraphDoc
