import GraphDoc.Proofs.Document.Names
import GraphDoc.Proofs.Document.Payload

/-!
# GraphDoc.Proofs.Document.Named

When all names in a document are names of the grammar.

Each operation derives names from the name of its table, takes over those of
its selection and of a key, and adds fixed ones.  The check that all of these
went through lets one line feed at the end pass, and nothing on the way takes it
out again.  So the names of a document are names of the grammar exactly if none
of those that it is made of ends in a line feed (`Unbroken`).
-/

namespace GraphDoc

open Name Naming

variable {registry : Registry} {tables : List Table} {table : Table}

/-! ## derived names -/

/-- A checked name is a name of the grammar if something that is one lets its
line feed through. -/
theorem valid_of_valid_derived {t derived : Text} (h : accepted t = true)
    (through : EndsInBreak t → .char '\n' ∈ derived) (hd : valid derived = true) :
    valid t = true := by
  rw [valid_iff_of_accepted h]
  intro hb
  rw [not_valid_of_mem_break (through hb)] at hd
  cases hd

/-- What an operation on many rows is called shows the line feed of its table. -/
theorem valid_of_valid_plural_append {t after : Text} (h : accepted t = true)
    (hd : valid (plural t ++ after) = true) : valid t = true :=
  valid_of_valid_derived h (fun hb => List.mem_append_left _ (mem_break_plural h hb)) hd

/-- Only the singular of a valid name makes a valid name with something behind it. -/
theorem valid_of_valid_singular_append {t after : Text} (h : accepted t = true)
    (hd : valid (singular t ++ after) = true) : valid t = true :=
  valid_of_valid_derived h (fun hb => List.mem_append_left _ (mem_break_singular h hb)) hd

/-- Only a valid name makes a valid field of a mutation. -/
theorem valid_of_valid_mutationField {action t : Text} (h : accepted t = true)
    (hd : valid (mutationField action t) = true) : valid t = true :=
  valid_of_valid_derived h (fun hb => List.mem_append_right _ (mem_break_typeName h hb)) hd

/-! ## documents around fields -/

/-- The names of a document whose root takes all variables by their names. -/
theorem boundDocument_named_iff {kind : OperationKind} {name root : Text}
    {definitions : List VariableDefinition} {nodes : List Node} :
    (boundDocument kind name root definitions nodes).Named ↔
      valid name = true ∧ valid root = true ∧
        (∀ d ∈ definitions, valid d.name = true ∧ valid d.type.name = true) ∧
        AllValid (Node.allNames nodes) := by
  have harguments : AllValid ((definitions.map fun d => Argument.bound d.name).flatMap
      Argument.names) ↔ ∀ d ∈ definitions, valid d.name = true := by
    simp [allValid_flatMap, Argument.bound, Argument.names, ArgumentValue.names]
  have hdefinitions : AllValid (definitions.flatMap VariableDefinition.names) ↔
      ∀ d ∈ definitions, valid d.name = true ∧ valid d.type.name = true := by
    simp [allValid_flatMap, VariableDefinition.names]
  simp only [Document.Named, boundDocument, Document.names, Node.names, allValid_cons,
    allValid_append, harguments, hdefinitions]
  constructor
  · intro h
    obtain ⟨hname, hdefs, hroot, _, hnodes⟩ := h
    exact ⟨hname, hroot, hdefs, hnodes⟩
  · intro h
    obtain ⟨hname, hroot, hdefs, hnodes⟩ := h
    exact ⟨hname, hdefs, hroot, fun d hd => (hdefs d hd).1, hnodes⟩

/-- What holds of a variable holds of it also where it is declared only if its value is
there. -/
theorem forall_mem_declared {P : VariableDefinition → Prop} {present : Bool} {name : Text}
    {type : TypeRef} (h : P ⟨name, type⟩) : ∀ d ∈ declared present name type, P d := by
  cases present <;> simp [declared, h]

/-- The variables of a query have names, and so do their types. -/
theorem valid_rowVariables (h : valid table.name = true) (p : RowOptions.Presence) :
    ∀ d ∈ rowVariables table p, valid d.name = true ∧ valid d.type.name = true := by
  have hfilter : valid "filter" = true := by decide
  have horder : valid "orderBy" = true := by decide
  simp only [rowVariables, List.forall_mem_append]
  refine ⟨⟨⟨⟨⟨?_, ?_⟩, ?_⟩, ?_⟩, ?_⟩, ?_⟩
  · exact forall_mem_declared (by decide)
  · exact forall_mem_declared (by decide)
  · exact forall_mem_declared (by decide)
  · exact forall_mem_declared (by decide)
  · exact forall_mem_declared ⟨hfilter, valid_filterType h⟩
  · exact forall_mem_declared ⟨horder, valid_orderByType h⟩

/-- A connection adds fixed names around its rows. -/
theorem allValid_connectionNodes {pageInfo : Bool} {rows : List Node} :
    AllValid (Node.allNames (connectionNodes pageInfo rows)) ↔ AllValid (Node.allNames rows) := by
  have hcount : AllValid (Node.names (.plain "totalCount")) := by decide
  have hpage : AllValid (Node.names (.branch "pageInfo" [] (pageInfoFields.map .plain))) := by
    decide
  have hrows : AllValid (Node.names (.branch "nodes" [] rows)) ↔
      AllValid (Node.allNames rows) := by
    have hnodes : valid "nodes" = true := by decide
    simp [Node.names, hnodes]
  rw [allValid_allNames]
  cases pageInfo with
  | false => simp [connectionNodes, hcount, hrows]
  | true => simp [connectionNodes, hcount, hrows, hpage]

/-! ## the documents of the operations -/

/-- All names of a query are valid if those of the table and of its rows are. -/
theorem rowsDocument_named_iff (ht : accepted table.name = true) {p : RowOptions.Presence}
    {rows : List Node} :
    (rowsDocument table p rows).Named ↔
      valid table.name = true ∧ AllValid (Node.allNames rows) := by
  rw [rowsDocument, boundDocument_named_iff, allValid_connectionNodes]
  constructor
  · intro h
    exact ⟨valid_of_valid_plural_append ht h.1, h.2.2.2⟩
  · intro h
    exact ⟨valid_append (valid_plural h.1) (by decide), valid_plural h.1,
      valid_rowVariables h.1 p, h.2⟩

/-- All names of a find-one are valid if those of the table, the key and the row are. -/
theorem rowDocument_named_iff (ht : accepted table.name = true) {field type : Text}
    {nodes : List Node} :
    (rowDocument table field type nodes).Named ↔
      valid table.name = true ∧ (valid field = true ∧ valid type = true) ∧
        AllValid (Node.allNames nodes) := by
  rw [rowDocument, boundDocument_named_iff, List.forall_mem_singleton]
  constructor
  · intro h
    exact ⟨valid_of_valid_singular_append ht h.1, h.2.2.1, h.2.2.2⟩
  · intro h
    exact ⟨valid_append (valid_singular h.1) (by decide), valid_singular h.1, h.2.1, h.2.2⟩

/-- All names of a count are valid if that of the table is. -/
theorem countDocument_named_iff (ht : accepted table.name = true) {filter : Bool} :
    (countDocument table filter).Named ↔ valid table.name = true := by
  have hfilter : valid "filter" = true := by decide
  rw [countDocument, boundDocument_named_iff]
  constructor
  · intro h
    exact valid_of_valid_plural_append ht h.1
  · intro h
    exact ⟨valid_append (valid_plural h) (by decide), valid_plural h,
      forall_mem_declared ⟨hfilter, valid_filterType h⟩, by decide⟩

/-- The names of a mutation, for an action and an input that are named. -/
theorem mutationDocument_named_iff (ht : accepted table.name = true) {action inputType : Text}
    (haction : valid action = true)
    (hinput : valid table.name = true → valid inputType = true) {payload : List Node} :
    (mutationDocument action inputType table payload).Named ↔
      valid table.name = true ∧ AllValid (Node.allNames payload) := by
  have hvariable : valid "input" = true := by decide
  rw [mutationDocument_eq, boundDocument_named_iff, List.forall_mem_singleton]
  constructor
  · intro h
    exact ⟨valid_of_valid_mutationField ht h.2.1, h.2.2.2⟩
  · intro h
    have hroot := valid_mutationField haction h.1
    exact ⟨valid_append hroot (by decide), hroot, ⟨hvariable, hinput h.1⟩, h.2⟩

/-! ## names without a line feed -/

/-- No name that a selection on a table is made of ends in a line feed. -/
def Unbroken (tables : List Table) (table : Table) (spec : Option Spec) : Prop :=
  ¬ EndsInBreak table.name ∧ ∀ name, TakenUp tables table spec name → ¬ EndsInBreak name

/-- A selection with fields has names exactly if none of them is broken. -/
theorem Requests.unbroken_iff (hr : registry.Named) (ht : table.Checked)
    (hts : ∀ t ∈ tables, t.Checked) {spec : Option Spec} {nodes : List Node}
    (h : Requests registry tables table spec nodes) :
    valid table.name = true ∧ AllValid (Node.allNames nodes) ↔ Unbroken tables table spec := by
  have htaken : ∀ name, TakenUp tables table spec name →
      (valid name = true ↔ ¬ EndsInBreak name) := fun name hname =>
    valid_iff_of_accepted (hname.accepted hts ht h)
  rw [Unbroken, valid_iff_of_accepted ht.1, h.allValid_iff hr]
  exact and_congr_right fun _ => forall_congr' fun name => forall_congr' fun hname =>
    htaken name hname

/-- The names of what a mutation answers with are valid if no name that the selection
takes up breaks a line. -/
theorem rowPayload_unbroken_iff (hr : registry.Named) (ht : table.Checked)
    (hts : ∀ t ∈ tables, t.Checked) {selection : Option Spec} {payload : List Node}
    (h : rowPayload registry tables table selection = .ok payload) :
    valid table.name = true ∧ AllValid (Node.allNames payload) ↔
      Unbroken tables table (payloadSpec table selection) := by
  obtain ⟨nodes, hreq, hpayload⟩ := rowPayload_eq_ok.1 h
  rw [← hreq.unbroken_iff hr ht hts, hpayload]
  refine and_congr_right fun hv => ?_
  simp [Node.allNames, Node.names, valid_singular hv]

/-! ## all operations -/

/-- **Names of documents**: the names in the document of an operation are names
of the grammar exactly if none of those that it is made of ends in a line
feed. -/
theorem named_iff_unbroken {registry : Registry} {tables : List Table} {table : Table}
    (hr : registry.Named) (ht : table.Checked) (hts : ∀ t ∈ tables, t.Checked) :
    (∀ spec o c, rowsQuery registry tables table spec o = .ok c →
      (c.document.Named ↔ Unbroken tables table spec)) ∧
    (∀ spec keyField keyType keyValue c,
      rowQuery registry tables table spec keyField keyType keyValue = .ok c →
      ∃ field type, keyField = .str field ∧ keyType = .str type ∧
        (c.document.Named ↔
          Unbroken tables table spec ∧ ¬ EndsInBreak field ∧ ¬ EndsInBreak type)) ∧
    (∀ o c, countQuery table o = .ok c → (c.document.Named ↔ ¬ EndsInBreak table.name)) ∧
    (∀ spec values c, createMutation registry tables table spec values = .ok c →
      (c.document.Named ↔ Unbroken tables table (payloadSpec table spec))) ∧
    (∀ spec rowId patch c, updateMutation registry tables table spec rowId patch = .ok c →
      (c.document.Named ↔ Unbroken tables table (payloadSpec table spec))) ∧
    ∀ rowId, (deleteMutation table rowId).document.Named ↔ ¬ EndsInBreak table.name := by
  have hname : valid table.name = true ↔ ¬ EndsInBreak table.name := valid_iff_of_accepted ht.1
  refine ⟨fun spec o c h => ?_, fun spec keyField keyType keyValue c h => ?_, fun o c h => ?_,
    fun spec values c h => ?_, fun spec rowId patch c h => ?_, fun rowId => ?_⟩
  · obtain ⟨_, rows, _, hrows, _, hc⟩ := rowsQuery_eq_ok.1 h
    rw [hc, rowsDocument_named_iff ht.1]
    exact ((selectionNodes_eq_ok _ _ _).1 hrows).unbroken_iff hr ht hts
  · obtain ⟨field, type, nodes, hfield, htype, hnodes, hc⟩ := rowQuery_eq_ok.1 h
    obtain ⟨hf, hfa⟩ := checkName_eq_ok_iff.1 hfield
    obtain ⟨hty, hta⟩ := checkName_eq_ok_iff.1 htype
    refine ⟨field, type, hf, hty, ?_⟩
    rw [hc, rowDocument_named_iff ht.1,
      ← ((selectionNodes_eq_ok _ _ _).1 hnodes).unbroken_iff hr ht hts,
      valid_iff_of_accepted hfa, valid_iff_of_accepted hta, and_comm (b := AllValid _), and_assoc]
  · rw [(countQuery_eq_ok.1 h).2, countDocument_named_iff ht.1, hname]
  · obtain ⟨payload, _, hpayload, _, hc⟩ := createMutation_eq_ok.1 h
    rw [hc, mutationDocument_named_iff ht.1 (by decide) valid_createInputType]
    exact rowPayload_unbroken_iff hr ht hts hpayload
  · obtain ⟨_, payload, _, hpayload, _, hc⟩ := updateMutation_eq_ok.1 h
    rw [hc, mutationDocument_named_iff ht.1 (by decide) valid_updateInputType]
    exact rowPayload_unbroken_iff hr ht hts hpayload
  · have hpayload : AllValid (Node.allNames [.plain "clientMutationId"]) := by decide
    rw [deleteMutation, mutationDocument_named_iff ht.1 (by decide) valid_deleteInputType, hname]
    exact and_iff_left hpayload

/-- All names in the document of an order and its customer are names, so none
of those that it is made of ends in a line feed. -/
theorem named_circle :
    Registry.standard.Named ∧ Circle.order.Checked ∧ (∀ t ∈ Circle.tables, t.Checked) ∧
      ∃ c, rowsQuery .standard Circle.tables Circle.order (some Circle.spec) {} = .ok c ∧
        c.document.Named ∧ Unbroken Circle.tables Circle.order (some Circle.spec) := by
  have hregistry : Registry.standard.Named := Registry.named_standard
  have horder : Circle.order.Checked := by decide
  have htables : ∀ t ∈ Circle.tables, t.Checked := by decide
  obtain ⟨hrows, _⟩ := named_iff_unbroken hregistry horder htables
  refine ⟨hregistry, horder, htables, _, rfl, ?_⟩
  have hnamed : (rowsDocument Circle.order (RowOptions.presence {}) Circle.nodes).Named := by
    decide
  exact ⟨hnamed, (hrows _ {} _ rfl).1 hnamed⟩

/-- A name with a line feed at its end passes the check, and so gets into a
document. -/
theorem not_named_of_break :
    ∃ table c, Table.make (.str "T\n") [] {} = .ok table ∧ table.Checked ∧
      countQuery table {} = .ok c ∧ ¬ c.document.Named := by
  have hmake : Table.make (.str "T\n") [] {} = .ok { name := "T\n" } := rfl
  have hchecked := Table.checked_of_make (by decide) (by decide) hmake
  refine ⟨_, _, hmake, hchecked, rfl, ?_⟩
  decide

end GraphDoc
