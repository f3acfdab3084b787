import GraphDoc.Proofs.Document.Shape
import GraphDoc.Proofs.Selection.Typing

/-!
# GraphDoc.Proofs.Document.Payload

The row that a mutation answers with.

A payload leaves the relations of its table out before it looks at anything
behind them, so what remains are columns (`payloadNodes`).  No other table
takes part in that: the outcome of a creation or an update, its error included,
is settled by its own table alone.
-/

namespace GraphDoc

variable {registry : Registry} {tables : List Table} {table : Table}

/-! ## relations left out -/

/-- The entries of a selection that name no relation of a table. -/
def plainEntries (table : Table) (entries : Spec) : Spec :=
  entries.filter fun e => table.isPlain e.1

/-- A plain entry names no relation. -/
theorem relationOf?_of_mem_plainEntries {entries : Spec} {e : Key × Selection}
    (h : e ∈ plainEntries table entries) : table.relationOf? e.1 = none :=
  Option.isNone_iff_eq_none.1 (List.mem_filter.1 h).2

/-- All plain entries are plain. -/
@[simp] theorem plainEntries_plainEntries (entries : Spec) :
    plainEntries table (plainEntries table entries) = plainEntries table entries := by
  simp [plainEntries]

/-- A selection without plain entries counts as none. -/
theorem payloadSpec_some (entries : Spec) :
    payloadSpec table (some entries) =
      if plainEntries table entries = [] then none else some (plainEntries table entries) := by
  cases hplain : entries.filter fun e => table.isPlain e.1 with
  | nil => simp [payloadSpec, plainEntries, hplain]
  | cons e rest => simp [payloadSpec, plainEntries, hplain]

/-- Leaving the relations out once is enough. -/
theorem payloadSpec_plainEntries (entries : Spec) :
    payloadSpec table (some (plainEntries table entries)) = payloadSpec table (some entries) := by
  rw [payloadSpec_some, payloadSpec_some, plainEntries_plainEntries]

/-- What a mutation answers with names no relation. -/
theorem relationOf?_of_mem_payloadSpec {spec : Option Spec} {entries : Spec}
    (h : payloadSpec table spec = some entries) :
    ∀ e ∈ entries, table.relationOf? e.1 = none := by
  cases spec with
  | none => cases h
  | some given =>
      rw [payloadSpec_some] at h
      split at h
      · cases h
      · rw [← Option.some.inj h]
        exact fun e he => relationOf?_of_mem_plainEntries he

/-! ## columns only -/

/-- The fields of a payload: those of the columns that remain, and of all plain
columns if none does. -/
def payloadNodes (registry : Registry) (table : Table) (spec : Option Spec) :
    Except Error (List Node) :=
  match payloadSpec table spec with
  | none => table.plainFields.mapM (fieldNode registry table.name) >>= nonemptyNodes table
  | some entries =>
    entries.mapM (fun e => columnNode registry table e.1 e.2) >>= nonemptyNodes table

/-- A payload is found without the other tables. -/
theorem selectionNodes_eq_payloadNodes (spec : Option Spec) :
    selectionNodes registry tables true table spec = payloadNodes registry table spec := by
  rw [selectionNodes_payload, payloadNodes]
  cases h : payloadSpec table spec with
  | none => exact selectionNodes_none
  | some entries =>
      have hcolumns : ∀ e ∈ entries, entryNode registry tables table e.1 e.2 =
          columnNode registry table e.1 e.2 := by
        intro e he
        simp only [entryNode, relationOf?_of_mem_payloadSpec h e he]
      rw [selectionNodes_some, mapM_congr_of_mem hcolumns]

/-- A mutation answers with one row, which holds what was selected. -/
theorem rowPayload_eq_payloadNodes (selection : Option Spec) :
    rowPayload registry tables table selection =
      (payloadNodes registry table selection).map
        fun nodes => [.branch (Naming.singular table.name) [] nodes] := by
  rw [rowPayload, selectionNodes_eq_payloadNodes]
  cases payloadNodes registry table selection <;> rfl

/-- A column that no relation shadows, found by its name. -/
theorem mem_plainFields_of_fieldOf? {key : Key} {f : Field} (plain : table.relationOf? key = none)
    (named : table.fieldOf? key = some f) : f ∈ table.plainFields := by
  obtain ⟨hmem, hkey⟩ := Table.mem_of_fieldOf? named
  rw [hkey] at plain
  have hrelation : table.relation? f.name = none := plain
  exact Table.mem_plainFields.2 ⟨hmem, by rw [Table.isRelation, hrelation]; rfl⟩

/-- The field of an entry that names no relation requests a plain column. -/
theorem EntryRequest.column_of_plain {key : Key} {s : Selection} {n : Node}
    (h : EntryRequest registry tables table key s n) (plain : table.relationOf? key = none) :
    ∃ f ∈ table.plainFields, ColumnRequest registry f n := by
  cases h with
  | singular named => simp [plain] at named
  | plural named => simp [plain] at named
  | column _ named request => exact ⟨_, mem_plainFields_of_fieldOf? plain named, request⟩

/-- Each field of a payload requests a plain column. -/
theorem Requests.columns_of_payload {spec : Option Spec} {nodes : List Node}
    (h : Requests registry tables table (payloadSpec table spec) nodes) :
    ∀ n ∈ nodes, ∃ f ∈ table.plainFields, ColumnRequest registry f n := by
  generalize hspec : payloadSpec table spec = left at h
  cases h with
  | absent _ columns => exact forall_mem_of_forall₂ columns fun f hf n hn => ⟨f, hf, hn⟩
  | given _ each =>
      rw [entriesRequest_iff_forall₂] at each
      refine forall_mem_of_forall₂ each fun e he n hn => ?_
      exact hn.column_of_plain (relationOf?_of_mem_payloadSpec hspec e he)

/-- A plain column is named after no relation. -/
theorem Table.name_ne_of_mem_plainFields {f : Field} (hf : f ∈ table.plainFields) :
    ∀ r ∈ table.relations.toList, r.field ≠ f.name := by
  have hnone := (mem_plainFields.1 hf).2
  simpa [isRelation, relation?] using hnone

/-- The row that a mutation answers with, around the fields of its payload. -/
theorem rowPayload_eq_ok {selection : Option Spec} {payload : List Node} :
    rowPayload registry tables table selection = .ok payload ↔
      ∃ nodes, Requests registry tables table (payloadSpec table selection) nodes ∧
        payload = [.branch (Naming.singular table.name) [] nodes] := by
  simp only [rowPayload, bind_eq_ok, pure_eq_ok, selectionNodes_payload, selectionNodes_eq_ok]
  exact exists_congr fun nodes => and_congr_right fun _ => eq_comm

/-! ## payloads are local -/

/-- **Locality of payloads**: the outcome of a payload is the same in any two
sets of tables, and so are those of a creation and an update.  Its fields
request plain columns, none of them named after a relation.  The relations of a
selection, with all that is nested behind them, might as well not be there, and
a selection of nothing else might be absent. -/
theorem payload_local (registry : Registry) (tables tables' : List Table) (table : Table)
    (spec : Option Spec) :
    selectionNodes registry tables true table spec =
      selectionNodes registry tables' true table spec ∧
    (∀ nodes, selectionNodes registry tables true table spec = .ok nodes → ∀ n ∈ nodes,
      (∀ r ∈ table.relations.toList, r.field ≠ n.name) ∧
        ∃ f ∈ table.plainFields, ColumnRequest registry f n) ∧
    (∀ entries, selectionNodes registry tables true table (some entries) =
      selectionNodes registry tables true table (some (plainEntries table entries))) ∧
    (∀ entries, plainEntries table entries = [] →
      selectionNodes registry tables true table (some entries) =
        selectionNodes registry tables true table none) ∧
    (∀ values, createMutation registry tables table spec values =
      createMutation registry tables' table spec values) ∧
    ∀ rowId patch, updateMutation registry tables table spec rowId patch =
      updateMutation registry tables' table spec rowId patch := by
  refine ⟨?_, fun nodes h n hn => ?_, fun entries => ?_, fun entries h => ?_, fun values => ?_,
    fun rowId patch => ?_⟩
  · rw [selectionNodes_eq_payloadNodes, selectionNodes_eq_payloadNodes]
  · rw [selectionNodes_payload, selectionNodes_eq_ok] at h
    obtain ⟨f, hf, request⟩ := h.columns_of_payload n hn
    rw [request.name_eq]
    exact ⟨Table.name_ne_of_mem_plainFields hf, f, hf, request⟩
  · rw [selectionNodes_payload, selectionNodes_payload, payloadSpec_plainEntries]
  · rw [selectionNodes_payload, selectionNodes_payload, payloadSpec_some, if_pos h]
    rfl
  · simp only [createMutation, rowPayload_eq_payloadNodes]
  · simp only [updateMutation, rowPayload_eq_payloadNodes]

/-- The customer of an order, with something that no person has. -/
def Circle.strayCustomer : Spec := [(.name "customer", .nested [(.name "nowhere", .leaf)])]

/-- What is asked of the customer does not count, nor does it that there is no
table of customers: the payload is the order itself. -/
theorem payload_local_strayCustomer :
    plainEntries Circle.order Circle.strayCustomer = [] ∧
      selectionNodes .standard [] true Circle.order (some Circle.strayCustomer) =
        selectionNodes .standard [] true Circle.order none ∧
      ∃ nodes,
        selectionNodes .standard Circle.tables true Circle.order (some Circle.strayCustomer) =
          .ok nodes ∧
        selectionNodes .standard [] true Circle.order (some Circle.strayCustomer) = .ok nodes ∧
        ∀ n ∈ nodes, ∀ r ∈ Circle.order.relations.toList, r.field ≠ n.name := by
  obtain ⟨hsame, hcolumns, _, hempty, _⟩ :=
    payload_local .standard [] Circle.tables Circle.order (some Circle.strayCustomer)
  have hplain : plainEntries Circle.order Circle.strayCustomer = [] := rfl
  have hnodes : selectionNodes .standard [] true Circle.order (some Circle.strayCustomer) =
      .ok [.leaf "id" [], .branch "leadTime" [] Circle.intervalNodes] := rfl
  exact ⟨hplain, hempty _ hplain, _, hsame.symm.trans hnodes, hnodes,
    fun n hn => (hcolumns _ hnodes n hn).1⟩

end GraphDoc
