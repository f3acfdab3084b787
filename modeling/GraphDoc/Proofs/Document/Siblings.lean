import GraphDoc.Proofs.Document.Payload
import GraphDoc.Proofs.Schema.Consistency
import GraphDoc.Proofs.Selection.Descent
import Mathlib.Data.List.Nodup

/-!
# GraphDoc.Proofs.Document.Siblings

The fields that stand side by side in a document.

No selection in a document is empty, and no field stands in it twice
(`Siblings`, at every depth `Node.Tidy`).  The names of a selection are those
that were asked for, each once because a selection has each name once
(`Spec.Distinct`); where nothing in particular is asked for they are those of
the columns, each once in a set of tables without problems.
-/

namespace GraphDoc

/-! ## tidy fields -/

/-- Below a field, at every depth, each selection has fields, with distinct
names. -/
inductive Node.Tidy : Node → Prop where
  | leaf {name : Text} {arguments : List Argument} : Node.Tidy (.leaf name arguments)
  | branch {name : Text} {arguments : List Argument} {children : List Node}
      (nonempty : children ≠ []) (distinct : (children.map Node.name).Nodup)
      (each : ∀ n ∈ children, Node.Tidy n) : Node.Tidy (.branch name arguments children)

/-- The fields of a selection: at least one, with distinct names, each tidy. -/
structure Siblings (nodes : List Node) : Prop where
  nonempty : nodes ≠ []
  distinct : (nodes.map Node.name).Nodup
  each : ∀ n ∈ nodes, n.Tidy

/-- A node whose children are siblings is tidy. -/
theorem Siblings.tidy {children : List Node} (h : Siblings children) (name : Text)
    (arguments : List Argument) : (Node.branch name arguments children).Tidy :=
  .branch h.nonempty h.distinct h.each

/-- A tidy node alone is a row of siblings. -/
theorem Node.Tidy.alone {n : Node} (h : n.Tidy) : Siblings [n] where
  nonempty := List.cons_ne_nil n []
  distinct := List.nodup_singleton n.name
  each := by simpa using h

/-- Names without repetition make siblings of plain fields. -/
theorem siblings_leaves {names : List Text} (nonempty : names ≠ []) (distinct : names.Nodup) :
    Siblings (names.map fun name => .leaf name []) where
  nonempty := by simpa using nonempty
  distinct := by simpa [Function.comp_def, Node.name] using distinct
  each := List.forall_mem_map.2 fun _ _ => .leaf

/-! ## selections and registries -/

/-- A selection that has each name once, at every depth. -/
inductive Spec.Distinct : Option Spec → Prop where
  | absent : Spec.Distinct none
  | given {entries : Spec} (keys : (entries.map Prod.fst).Nodup)
      (below : ∀ e ∈ entries, Spec.Distinct e.2.inner) : Spec.Distinct (some entries)

/-- A payload has the names of its selection, so each of them once. -/
theorem Spec.Distinct.payloadSpec {spec : Option Spec} (h : Spec.Distinct spec) (table : Table) :
    Spec.Distinct (payloadSpec table spec) := by
  cases h with
  | absent => exact .absent
  | @given entries keys below =>
      rw [payloadSpec_some]
      split
      · exact .absent
      · have hsub : (plainEntries table entries).Sublist entries := List.filter_sublist
        exact .given (keys.sublist (hsub.map Prod.fst)) fun e he => below e (hsub.subset he)

/-- Every type has parts, and none of them twice. -/
def Registry.Tidy (r : Registry) : Prop := ∀ e ∈ r.entries, e.2 ≠ [] ∧ e.2.Nodup

/-- The parts of the standard types are distinct. -/
theorem Registry.tidy_standard : Registry.standard.Tidy := by
  have hentries : ∀ e ∈ Registry.standard.entries, e.2 ≠ [] ∧ e.2.Nodup := by decide
  exact hentries

/-! ## the fields of a selection -/

section

variable {registry : Registry} {tables : List Table} {table : Table}

/-- A column is requested with tidy nodes. -/
theorem ColumnRequest.tidy (hr : registry.Tidy) {f : Field} {n : Node}
    (h : ColumnRequest registry f n) : n.Tidy := by
  cases h with
  | plain _ => exact .leaf
  | expanded _ known =>
      obtain ⟨type, hmem⟩ := Registry.mem_entries_of_find? known
      obtain ⟨nonempty, distinct⟩ := hr _ hmem
      exact (siblings_leaves nonempty distinct).tidy f.name []

/-- The field of an entry is tidy if those behind it are. -/
theorem EntryRequest.tidy (hr : registry.Tidy) {key : Key} {s : Selection} {n : Node}
    (h : EntryRequest registry tables table key s n)
    (below : ∀ related ∈ tables, ∀ nodes,
      Requests registry tables related s.inner nodes → Siblings nodes) : n.Tidy := by
  cases h with
  | @singular _ related _ _ r nodes _ _ target hn =>
      exact (below related (mem_of_tableNamed? target).1 nodes hn).tidy r.field []
  | @plural _ related _ _ r nodes _ _ target hn =>
      have hrows := (below related (mem_of_tableNamed? target).1 nodes hn).tidy "nodes" []
      exact hrows.alone.tidy r.field _
  | column _ _ request => exact request.tidy hr

/-- Different names are different keys. -/
theorem nodup_map_name {names : List Text} (h : names.Nodup) : (names.map Key.name).Nodup :=
  h.map fun _ _ => Key.name.inj

/-- The names that a selection asks for stand once. -/
theorem nodup_selectedKeys (hc : Consistent tables) (ht : table ∈ tables) {spec : Option Spec}
    (hs : Spec.Distinct spec) : (selectedKeys table spec).Nodup := by
  cases hs with
  | given keys _ => exact keys
  | absent =>
      have hsub : table.plainNames.Sublist (table.fields.map Field.name) :=
        List.filter_sublist.map Field.name
      exact nodup_map_name ((hc.fields_nodup table ht).sublist hsub)

/-- What a selection requests has different names. -/
theorem Requests.nodup_names (hc : Consistent tables) (ht : table ∈ tables) {spec : Option Spec}
    (hs : Spec.Distinct spec) {nodes : List Node} (h : Requests registry tables table spec nodes) :
    (nodes.map Node.name).Nodup := by
  have hkeys := nodup_selectedKeys hc ht hs
  rw [← h.names_eq] at hkeys
  refine List.Nodup.of_map Key.name ?_
  rwa [List.map_map]

/-- Something is requested. -/
theorem Requests.ne_nil {spec : Option Spec} {nodes : List Node}
    (h : Requests registry tables table spec nodes) : nodes ≠ [] := by
  cases h with
  | absent nonempty columns => exact ne_nil_of_forall₂ columns nonempty
  | given nonempty each => exact ne_nil_of_forall₂ (entriesRequest_iff_forall₂.1 each) nonempty

/-- **Siblings of a selection**: on a table of a consistent set, the fields of a
selection are tidy, in whatever tables the descent goes on. -/
theorem Requests.siblings (hr : registry.Tidy) (hc : Consistent tables) (ht : table ∈ tables)
    {spec : Option Spec} (hs : Spec.Distinct spec) {nodes : List Node}
    (h : Requests registry tables table spec nodes) : Siblings nodes := by
  induction spec using Spec.induction_on generalizing table nodes with
  | absent =>
      refine ⟨h.ne_nil, h.nodup_names hc ht hs, ?_⟩
      cases h with
      | absent _ columns => exact forall_mem_of_forall₂ columns fun f _ n hn => hn.tidy hr
  | given entries ih =>
      refine ⟨h.ne_nil, h.nodup_names hc ht hs, ?_⟩
      cases hs with
      | given _ below =>
          cases h with
          | given _ each =>
              rw [entriesRequest_iff_forall₂] at each
              refine forall_mem_of_forall₂ each fun e he n hn => ?_
              exact hn.tidy hr fun related hmem nodes hnodes => ih e he hmem (below e he) hnodes

/-! ## documents -/

/-- The selection of the operation, which is its root field alone, is that of
siblings, and so is each below. -/
def Document.Tidy (d : Document) : Prop := Siblings [d.root]

/-- The document of an operation is tidy if its nodes are siblings. -/
theorem tidy_boundDocument {kind : OperationKind} {name root : Text}
    {definitions : List VariableDefinition} {nodes : List Node} (h : Siblings nodes) :
    (boundDocument kind name root definitions nodes).Tidy :=
  (h.tidy root _).alone

/-- The document of a mutation is tidy if its answer is siblings. -/
theorem tidy_mutationDocument {action inputType : Text} {payload : List Node}
    (h : Siblings payload) : (mutationDocument action inputType table payload).Tidy := by
  rw [mutationDocument_eq]
  exact tidy_boundDocument h

/-- The parts of a connection are siblings if its rows are. -/
theorem siblings_connectionNodes {rows : List Node} (h : Siblings rows) (pageInfo : Bool) :
    Siblings (connectionNodes pageInfo rows) := by
  have hrows : (Node.branch "nodes" [] rows).Tidy := h.tidy "nodes" []
  have hfields : Siblings (pageInfoFields.map .plain) := siblings_leaves (by decide) (by decide)
  have hinfo : (Node.branch "pageInfo" [] (pageInfoFields.map .plain)).Tidy :=
    hfields.tidy "pageInfo" []
  refine ⟨List.cons_ne_nil _ _, ?_, ?_⟩
  · rw [map_name_connectionNodes]
    cases pageInfo <;> decide
  · have hcount : (Node.plain "totalCount").Tidy := .leaf
    cases pageInfo <;> simp [connectionNodes, hcount, hrows, hinfo]

/-- What a mutation answers with is siblings. -/
theorem siblings_rowPayload (hr : registry.Tidy) (hc : Consistent tables) (ht : table ∈ tables)
    {selection : Option Spec} (hs : Spec.Distinct selection) {payload : List Node}
    (h : rowPayload registry tables table selection = .ok payload) : Siblings payload := by
  obtain ⟨nodes, hnodes, hpayload⟩ := rowPayload_eq_ok.1 h
  rw [hpayload]
  exact ((hnodes.siblings hr hc ht (hs.payloadSpec table)).tidy _ []).alone

end

/-- **Siblings of documents**: on a table of a set without problems, and with
the standard registry, no selection in the document of an operation is empty or
has a field twice. -/
theorem tidy_of_problems_eq_nil {tables : List Table} {table : Table} (h : problems tables = [])
    (ht : table ∈ tables) :
    (∀ spec o c, Spec.Distinct spec → rowsQuery .standard tables table spec o = .ok c →
      c.document.Tidy) ∧
    (∀ spec keyField keyType keyValue c, Spec.Distinct spec →
      rowQuery .standard tables table spec keyField keyType keyValue = .ok c →
      c.document.Tidy) ∧
    (∀ o c, countQuery table o = .ok c → c.document.Tidy) ∧
    (∀ spec values c, Spec.Distinct spec →
      createMutation .standard tables table spec values = .ok c → c.document.Tidy) ∧
    (∀ spec rowId patch c, Spec.Distinct spec →
      updateMutation .standard tables table spec rowId patch = .ok c → c.document.Tidy) ∧
    ∀ rowId, (deleteMutation table rowId).document.Tidy := by
  have hr := Registry.tidy_standard
  have hc : Consistent tables := problems_eq_nil_iff.1 h
  refine ⟨fun spec o c hs hquery => ?_, fun spec keyField keyType keyValue c hs hquery => ?_,
    fun o c hquery => ?_, fun spec values c hs hmutation => ?_,
    fun spec rowId patch c hs hmutation => ?_, fun rowId => ?_⟩
  · obtain ⟨_, rows, _, hrows, _, hdoc⟩ := rowsQuery_eq_ok.1 hquery
    have hsiblings := ((selectionNodes_eq_ok _ _ _).1 hrows).siblings hr hc ht hs
    rw [hdoc]
    exact tidy_boundDocument (siblings_connectionNodes hsiblings _)
  · obtain ⟨_, _, nodes, _, _, hnodes, hdoc⟩ := rowQuery_eq_ok.1 hquery
    have hsiblings := ((selectionNodes_eq_ok _ _ _).1 hnodes).siblings hr hc ht hs
    rw [hdoc]
    exact tidy_boundDocument hsiblings
  · rw [(countQuery_eq_ok.1 hquery).2]
    exact tidy_boundDocument Node.Tidy.leaf.alone
  · obtain ⟨payload, _, hpayload, _, hdoc⟩ := createMutation_eq_ok.1 hmutation
    rw [hdoc]
    exact tidy_mutationDocument (siblings_rowPayload hr hc ht hs hpayload)
  · obtain ⟨_, payload, _, hpayload, _, hdoc⟩ := updateMutation_eq_ok.1 hmutation
    rw [hdoc]
    exact tidy_mutationDocument (siblings_rowPayload hr hc ht hs hpayload)
  · exact tidy_mutationDocument Node.Tidy.leaf.alone

/-- The selection from an order to its customer, and on from there, has no name
twice. -/
theorem Circle.spec_distinct : Spec.Distinct (some spec) := by
  have horder : (["id", "customer"] : List Text).Nodup := by decide
  have hperson : (["orders"] : List Text).Nodup := by decide
  have horders : (["leadTime", "customer"] : List Text).Nodup := by decide
  refine .given (nodup_map_name horder) (List.forall_mem_cons.2 ⟨.absent, ?_⟩)
  refine List.forall_mem_singleton.2 (.given (nodup_map_name hperson) ?_)
  refine List.forall_mem_singleton.2 (.given (nodup_map_name horders) ?_)
  exact List.forall_mem_cons.2 ⟨.absent, List.forall_mem_singleton.2 .absent⟩

/-- An order, its customer and the orders of the customer, in a set of tables
without problems. -/
theorem tidy_circle :
    problems Circle.tables = [] ∧ Circle.order ∈ Circle.tables ∧
      Spec.Distinct (some Circle.spec) ∧
      (∃ c, rowsQuery .standard Circle.tables Circle.order (some Circle.spec) {} = .ok c ∧
        c.document.Tidy) ∧
      ∃ c, createMutation .standard Circle.tables Circle.order (some Circle.spec) .null = .ok c ∧
        c.document.Tidy := by
  have hproblems : problems Circle.tables = [] := rfl
  have hmem : Circle.order ∈ Circle.tables := List.mem_cons_self
  have hspec : Spec.Distinct (some Circle.spec) := Circle.spec_distinct
  obtain ⟨hrows, _, _, hcreate, _⟩ := tidy_of_problems_eq_nil hproblems hmem
  exact ⟨hproblems, hmem, hspec, ⟨_, rfl, hrows _ {} _ hspec rfl⟩,
    _, rfl, hcreate _ .null _ hspec rfl⟩

end GraphDoc
