import GraphDoc.Proofs.Selection.Walk

/-!
# GraphDoc.Proofs.Selection.Typing

Which selections fit a table, and which fields they request.

* `WellTyped` says by rules when a selection fits a table within a set of
  tables, and `Requests` which fields it stands for.
* `selectionNodes_eq_ok`: the walk finds exactly the fields of the rules.
* `exists_selectionNodes_iff`: it finds any exactly for a selection that fits.

Both rules follow the relations from table to table, also in circles; what
ends them is the selection, which loses a level with each relation.
-/

namespace GraphDoc

/-! ## the rules -/

/-- A column that can be requested: a plain one, or one whose parts are known. -/
def Field.Classifiable (registry : Registry) (f : Field) : Prop :=
  f.composite = false ∨ ∃ parts, registry.find? f.wireType = some parts

mutual
/-- A selection fits a table. -/
inductive WellTyped (registry : Registry) (tables : List Table) :
    Table → Option Spec → Prop where
  /-- Nothing in particular: there are plain columns, and all can be requested. -/
  | absent {table : Table} (nonempty : table.plainFields ≠ [])
      (columns : ∀ f ∈ table.plainFields, f.Classifiable registry) :
      WellTyped registry tables table none
  /-- Entries, at least one, that all fit. -/
  | given {table : Table} {entries : Spec} (nonempty : entries ≠ [])
      (each : ∀ e ∈ entries, EntryTyped registry tables table e.1 e.2) :
      WellTyped registry tables table (some entries)

/-- What is selected under a name fits a table. -/
inductive EntryTyped (registry : Registry) (tables : List Table) :
    Table → Key → Selection → Prop where
  /-- A relation to a table of the set that what is selected of it fits. -/
  | relation {table related : Table} {key : Key} {s : Selection} {r : Relation}
      (named : table.relationOf? key = some r)
      (target : tableNamed? tables r.target = some related)
      (below : WellTyped registry tables related s.inner) :
      EntryTyped registry tables table key s
  /-- A column that no relation shadows, without a selection of its own. -/
  | column {table : Table} {key : Key} {f : Field} (plain : table.relationOf? key = none)
      (named : table.fieldOf? key = some f) (classifiable : f.Classifiable registry) :
      EntryTyped registry tables table key .leaf
end

/-- The field that requests a column. -/
inductive ColumnRequest (registry : Registry) (f : Field) : Node → Prop where
  | plain (single : f.composite = false) : ColumnRequest registry f (.leaf f.name [])
  | expanded {parts : List Text} (composite : f.composite = true)
      (known : registry.find? f.wireType = some parts) :
      ColumnRequest registry f (.branch f.name [] (parts.map fun part => .leaf part []))

mutual
/-- The fields that a selection on a table stands for. -/
inductive Requests (registry : Registry) (tables : List Table) :
    Table → Option Spec → List Node → Prop where
  /-- Nothing in particular: every plain column in order. -/
  | absent {table : Table} {nodes : List Node} (nonempty : table.plainFields ≠ [])
      (columns : List.Forall₂ (ColumnRequest registry) table.plainFields nodes) :
      Requests registry tables table none nodes
  | given {table : Table} {entries : Spec} {nodes : List Node} (nonempty : entries ≠ [])
      (each : EntriesRequest registry tables table entries nodes) :
      Requests registry tables table (some entries) nodes

/-- The fields that entries on a table stand for, one for each. -/
inductive EntriesRequest (registry : Registry) (tables : List Table) :
    Table → Spec → List Node → Prop where
  | nil {table : Table} : EntriesRequest registry tables table [] []
  | cons {table : Table} {key : Key} {s : Selection} {rest : Spec} {n : Node}
      {others : List Node} (first : EntryRequest registry tables table key s n)
      (next : EntriesRequest registry tables table rest others) :
      EntriesRequest registry tables table ((key, s) :: rest) (n :: others)

/-- The field that an entry on a table stands for. -/
inductive EntryRequest (registry : Registry) (tables : List Table) :
    Table → Key → Selection → Node → Prop where
  /-- A relation to one row holds the fields of the row. -/
  | singular {table related : Table} {key : Key} {s : Selection} {r : Relation}
      {nodes : List Node} (named : table.relationOf? key = some r)
      (kind : r.kind = .belongsTo ∨ r.kind = .hasOne)
      (target : tableNamed? tables r.target = some related)
      (below : Requests registry tables related s.inner nodes) :
      EntryRequest registry tables table key s (.branch r.field [] nodes)
  /-- A relation to many rows holds the first page of them. -/
  | plural {table related : Table} {key : Key} {s : Selection} {r : Relation}
      {nodes : List Node} (named : table.relationOf? key = some r)
      (kind : r.kind = .hasMany ∨ r.kind = .manyToMany)
      (target : tableNamed? tables r.target = some related)
      (below : Requests registry tables related s.inner nodes) :
      EntryRequest registry tables table key s
        (.branch r.field [⟨"first", .int 20⟩] [.branch "nodes" [] nodes])
  | column {table : Table} {key : Key} {f : Field} {n : Node}
      (plain : table.relationOf? key = none) (named : table.fieldOf? key = some f)
      (request : ColumnRequest registry f n) :
      EntryRequest registry tables table key .leaf n
end

/-- The names that a selection on a table asks for, in order. -/
def selectedKeys (table : Table) : Option Spec → List Key
  | none => table.plainNames.map Key.name
  | some entries => entries.map Prod.fst

/-! ## columns -/

section

variable {registry : Registry} {tables : List Table}

/-- A field succeeds with the node that requests it. -/
theorem fieldNode_eq_ok {table : Text} {f : Field} {n : Node} :
    fieldNode registry table f = .ok n ↔ ColumnRequest registry f n := by
  unfold fieldNode fieldRequest
  constructor
  · intro h
    cases hc : f.composite with
    | false =>
        simp only [hc, Bool.false_eq_true, if_false, Except.map, Except.ok.injEq] at h
        subst h
        exact .plain hc
    | true =>
        cases hp : registry.find? f.wireType with
        | none => simp [hc, hp, Except.map] at h
        | some parts =>
            simp only [hc, hp, if_true, Except.map, Except.ok.injEq] at h
            subst h
            exact .expanded hc hp
  · intro h
    cases h with
    | plain hc => simp [hc, Except.map, FieldRequest.node, Node.plain]
    | expanded hc hp =>
        simp [hc, hp, Except.map, FieldRequest.node, expansionNode, Node.plain]

/-- A column can be requested if it can be classified. -/
theorem exists_columnRequest_iff {f : Field} :
    (∃ n, ColumnRequest registry f n) ↔ f.Classifiable registry := by
  constructor
  · intro h
    obtain ⟨n, h⟩ := h
    cases h with
    | plain hc => exact Or.inl hc
    | expanded _ hp => exact Or.inr ⟨_, hp⟩
  · intro h
    cases hc : f.composite with
    | false => exact ⟨_, .plain hc⟩
    | true =>
        obtain ⟨parts, hp⟩ := h.resolve_left (by simp [hc])
        exact ⟨_, .expanded hc hp⟩

/-- A column is requested under its name. -/
theorem ColumnRequest.name_eq {f : Field} {n : Node} (h : ColumnRequest registry f n) :
    n.name = f.name := by
  cases h <;> rfl

/-! ## entries -/

/-- Entries are requested one by one. -/
theorem entriesRequest_iff_forall₂ {table : Table} {entries : Spec} {nodes : List Node} :
    EntriesRequest registry tables table entries nodes ↔
      List.Forall₂ (fun e n => EntryRequest registry tables table e.1 e.2 n) entries nodes := by
  induction entries generalizing nodes with
  | nil =>
      rw [List.forall₂_nil_left_iff]
      constructor
      · intro h
        cases h
        rfl
      · intro h
        rw [h]
        exact .nil
  | cons e rest ih =>
      rw [List.forall₂_cons_left_iff]
      constructor
      · intro h
        cases h with
        | cons first next => exact ⟨_, _, first, ih.1 next, rfl⟩
      · intro h
        obtain ⟨n, others, first, next, hn⟩ := h
        rw [hn]
        exact .cons first (ih.2 next)

/-- A column succeeds with the node that requests its entry. -/
theorem columnNode_eq_ok {table : Table} {key : Key} {s : Selection} {n : Node}
    (plain : table.relationOf? key = none) :
    columnNode registry table key s = .ok n ↔ EntryRequest registry tables table key s n := by
  constructor
  · intro h
    cases hf : table.fieldOf? key with
    | none => simp [columnNode, hf] at h
    | some f =>
        cases s with
        | leaf =>
            simp only [columnNode, hf] at h
            exact .column plain hf (fieldNode_eq_ok.1 h)
        | whole => simp [columnNode, hf] at h
        | nested entries => simp [columnNode, hf] at h
  · intro h
    cases h with
    | singular named => simp [plain] at named
    | plural named => simp [plain] at named
    | column _ named request =>
        simp only [columnNode, named]
        exact fieldNode_eq_ok.2 request

/-- A relation stands for its field around the fields of the table at its far
end. -/
theorem entryRequest_relation_iff {table : Table} {key : Key} {s : Selection} {n : Node}
    {r : Relation} (named : table.relationOf? key = some r) :
    EntryRequest registry tables table key s n ↔
      ∃ related nodes, tableNamed? tables r.target = some related ∧
        Requests registry tables related s.inner nodes ∧ relationNode r nodes = n := by
  constructor
  · intro h
    cases h with
    | @singular _ related _ _ _ nodes named' kind target hn =>
        obtain rfl : r = _ := Option.some.inj (named.symm.trans named')
        refine ⟨related, nodes, target, hn, ?_⟩
        rcases kind with hk | hk <;> simp [relationNode, hk, RelationKind.cardinality]
    | @plural _ related _ _ _ nodes named' kind target hn =>
        obtain rfl : r = _ := Option.some.inj (named.symm.trans named')
        refine ⟨related, nodes, target, hn, ?_⟩
        rcases kind with hk | hk <;>
          simp [relationNode, hk, RelationKind.cardinality, relationPage]
    | column plain => simp [plain] at named
  · intro h
    obtain ⟨related, nodes, target, hn, he⟩ := h
    rw [← he]
    unfold relationNode
    cases hk : r.kind with
    | belongsTo => exact .singular named (Or.inl hk) target hn
    | hasOne => exact .singular named (Or.inr hk) target hn
    | hasMany => exact .plural named (Or.inl hk) target hn
    | manyToMany => exact .plural named (Or.inr hk) target hn

/-- The field of an entry, given the fields of what is selected below it. -/
theorem entryNode_eq_ok {table : Table} {key : Key} {s : Selection} {n : Node}
    (below : ∀ related nodes, selectionNodes registry tables false related s.inner = .ok nodes ↔
      Requests registry tables related s.inner nodes) :
    entryNode registry tables table key s = .ok n ↔
      EntryRequest registry tables table key s n := by
  cases hr : table.relationOf? key with
  | none =>
      simp only [entryNode, hr]
      exact columnNode_eq_ok hr
  | some r =>
      rw [entryRequest_relation_iff hr]
      simp only [entryNode, hr, bind_eq_ok, Relation.resolve_eq_ok, below, pure_eq_ok,
        exists_and_left]

/-! ## the walk follows the rules -/

/-- **Soundness and completeness**: the fields that the walk finds are those
that the selection stands for. -/
theorem selectionNodes_eq_ok (spec : Option Spec) (table : Table) (nodes : List Node) :
    selectionNodes registry tables false table spec = .ok nodes ↔
      Requests registry tables table spec nodes := by
  induction spec using Spec.induction_on generalizing table nodes with
  | absent =>
      simp only [selectionNodes_none, nonempty_mapM_eq_ok, fieldNode_eq_ok]
      constructor
      · intro h
        exact .absent h.1 h.2
      · intro h
        cases h with
        | absent nonempty columns => exact ⟨nonempty, columns⟩
  | given entries ih =>
      have each : List.Forall₂ (fun e n => entryNode registry tables table e.1 e.2 = .ok n)
          entries nodes ↔ EntriesRequest registry tables table entries nodes := by
        rw [entriesRequest_iff_forall₂]
        exact forall₂_congr_of_mem fun e he n => entryNode_eq_ok (ih e he)
      rw [selectionNodes_some, nonempty_mapM_eq_ok, each]
      constructor
      · intro h
        exact .given h.1 h.2
      · intro h
        cases h with
        | given nonempty each => exact ⟨nonempty, each⟩

/-- An entry has a field exactly if it fits, given the same of what is selected
below it. -/
theorem exists_entryNode_iff {table : Table} {key : Key} {s : Selection}
    (below : ∀ related,
      (∃ nodes, selectionNodes registry tables false related s.inner = .ok nodes) ↔
        WellTyped registry tables related s.inner) :
    (∃ n, entryNode registry tables table key s = .ok n) ↔
      EntryTyped registry tables table key s := by
  simp only [entryNode_eq_ok (selectionNodes_eq_ok s.inner)]
  simp only [selectionNodes_eq_ok] at below
  constructor
  · intro h
    obtain ⟨n, h⟩ := h
    cases h with
    | singular named _ target hn => exact .relation named target ((below _).1 ⟨_, hn⟩)
    | plural named _ target hn => exact .relation named target ((below _).1 ⟨_, hn⟩)
    | column plain named request =>
        exact .column plain named (exists_columnRequest_iff.1 ⟨n, request⟩)
  · intro h
    cases h with
    | @relation _ related _ _ r named target typed =>
        obtain ⟨nodes, hn⟩ := (below related).2 typed
        exact ⟨_, (entryRequest_relation_iff named).2 ⟨related, nodes, target, hn, rfl⟩⟩
    | column plain named classifiable =>
        obtain ⟨n, request⟩ := exists_columnRequest_iff.2 classifiable
        exact ⟨n, .column plain named request⟩

/-- **Typing**: the walk finds fields exactly for a selection that fits. -/
theorem exists_selectionNodes_iff (spec : Option Spec) (table : Table) :
    (∃ nodes, selectionNodes registry tables false table spec = .ok nodes) ↔
      WellTyped registry tables table spec := by
  induction spec using Spec.induction_on generalizing table with
  | absent =>
      simp only [selectionNodes_none, exists_nonempty_mapM_iff, fieldNode_eq_ok,
        exists_columnRequest_iff]
      constructor
      · intro h
        exact .absent h.1 h.2
      · intro h
        cases h with
        | absent nonempty columns => exact ⟨nonempty, columns⟩
  | given entries ih =>
      have each : (∀ e ∈ entries, ∃ n, entryNode registry tables table e.1 e.2 = .ok n) ↔
          ∀ e ∈ entries, EntryTyped registry tables table e.1 e.2 :=
        forall₂_congr fun e he => exists_entryNode_iff (ih e he)
      rw [selectionNodes_some, exists_nonempty_mapM_iff, each]
      constructor
      · intro h
        exact .given h.1 h.2
      · intro h
        cases h with
        | given nonempty each => exact ⟨nonempty, each⟩

/-! ## one field for each name -/

/-- An entry is requested under its key. -/
theorem EntryRequest.name_eq {table : Table} {key : Key} {s : Selection} {n : Node}
    (h : EntryRequest registry tables table key s n) : Key.name n.name = key := by
  cases h with
  | singular named => exact (Table.mem_of_relationOf? named).2.symm
  | plural named => exact (Table.mem_of_relationOf? named).2.symm
  | column _ named request => rw [request.name_eq, (Table.mem_of_fieldOf? named).2]

/-- The fields of a selection carry its names, in the same order. -/
theorem Requests.names_eq {table : Table} {spec : Option Spec} {nodes : List Node}
    (h : Requests registry tables table spec nodes) :
    nodes.map (fun n => Key.name n.name) = selectedKeys table spec := by
  cases h with
  | absent _ columns =>
      rw [selectedKeys, Table.plainNames, List.map_map]
      exact map_eq_map_of_forall₂ columns fun f n h => congrArg Key.name h.name_eq
  | given _ each =>
      rw [entriesRequest_iff_forall₂] at each
      exact map_eq_map_of_forall₂ each fun e n h => h.name_eq

end

/-! ## the typing theorem -/

/-- **Typing of selections**: a selection has fields exactly if it fits the
table.  They are then the fields that it stands for, one for each name and in
the order of the names. -/
theorem selectionNodes_iff_wellTyped (registry : Registry) (tables : List Table) (table : Table)
    (spec : Option Spec) :
    ((∃ nodes, selectionNodes registry tables false table spec = .ok nodes) ↔
      WellTyped registry tables table spec) ∧
    ∀ nodes,
      (selectionNodes registry tables false table spec = .ok nodes ↔
        Requests registry tables table spec nodes) ∧
      (selectionNodes registry tables false table spec = .ok nodes →
        nodes.map (fun n => Key.name n.name) = selectedKeys table spec) := by
  refine ⟨exists_selectionNodes_iff spec table, fun nodes => ?_⟩
  have hrules : selectionNodes registry tables false table spec = .ok nodes ↔
      Requests registry tables table spec nodes := selectionNodes_eq_ok spec table nodes
  exact ⟨hrules, fun h => (hrules.1 h).names_eq⟩

/-! ## two tables in a circle -/

namespace Circle

/-- Orders; the relation `customer` shadows a column. -/
def order : Table where
  name := "Order"
  fields := [
    { name := "id", wireType := "UUID", nullable := false },
    { name := "leadTime", wireType := "Interval", composite := true },
    { name := "customer", wireType := "String" }]
  relations := { belongsTo := [⟨"customer", .belongsTo, "Person"⟩] }

/-- Persons, who lead back to their orders. -/
def person : Table where
  name := "Person"
  fields := [{ name := "id", wireType := "UUID", nullable := false }]
  relations := { hasMany := [⟨"orders", .hasMany, "Order"⟩] }

def tables : List Table := [order, person]

/-- From a person to all orders of the person, and to the customer of each. -/
def personSpec : Spec := [
  (.name "orders", .nested [(.name "leadTime", .leaf), (.name "customer", .whole)])]

/-- From an order to its customer, and on from there. -/
def spec : Spec := [(.name "id", .leaf), (.name "customer", .nested personSpec)]

/-- The parts of an interval, one field for each. -/
def intervalNodes : List Node := [
  .leaf "seconds" [], .leaf "minutes" [], .leaf "hours" [], .leaf "days" [], .leaf "months" [],
  .leaf "years" []]

/-- The fields that the selection requests of an order. -/
def nodes : List Node := [
  .leaf "id" [],
  .branch "customer" [] [
    .branch "orders" [⟨"first", .int 20⟩] [
      .branch "nodes" [] [
        .branch "leadTime" [] intervalNodes,
        .branch "customer" [] [.leaf "id" []]]]]]

end Circle

/-- Relations in a circle end with the selection. -/
theorem wellTyped_circle :
    WellTyped .standard Circle.tables Circle.order (some Circle.spec) ∧
      Requests .standard Circle.tables Circle.order (some Circle.spec) Circle.nodes ∧
      Circle.nodes.map (fun n => Key.name n.name) = [.name "id", .name "customer"] := by
  obtain ⟨htyped, hnodes⟩ :=
    selectionNodes_iff_wellTyped .standard Circle.tables Circle.order (some Circle.spec)
  have hwalk : selectionNodes .standard Circle.tables false Circle.order (some Circle.spec) =
      .ok Circle.nodes := rfl
  exact ⟨htyped.1 ⟨_, hwalk⟩, (hnodes _).1.1 hwalk, (hnodes _).2 hwalk⟩

end GraphDoc
