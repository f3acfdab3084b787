import GraphDoc.Proofs.Document.Payload
import GraphDoc.Proofs.Schema.Lookup
import GraphDoc.Proofs.Selection.Writes

/-!
# GraphDoc.Proofs.Selection.Default

The ways to ask for all plain columns.

No selection at all, the selection that names every plain column, and the preset
`all` walk different ways.  On a table whose columns have distinct names they
come to the same fields or to the same error (`selectionNodes_leaves`,
`choiceSelection_all`), and so do the ways to ask it of the table behind a
relation, at any depth (`Swapped.selectionNodes_eq`).  An operation takes nothing
from a selection but its fields, so its outcome is the same as well
(`SameOutcome`).
-/

namespace GraphDoc

variable {registry : Registry} {tables : List Table} {table : Table}

/-! ## all columns by name -/

/-- A plain column asked for by its name is requested as it is without a
selection. -/
theorem entryNode_of_mem_plainFields (h : table.DistinctFields) {f : Field}
    (hf : f ∈ table.plainFields) :
    entryNode registry tables table (.name f.name) .leaf = fieldNode registry table.name f := by
  obtain ⟨hrelation, hfield⟩ := Table.lookups_of_mem_plainFields h hf
  simp only [entryNode, hrelation, columnNode, hfield]

/-- Plain columns asked for by their names stay in a payload. -/
theorem plainEntries_leaves {names : List Text} (h : names ⊆ table.plainNames) :
    plainEntries table (leaves names) = leaves names := by
  rw [plainEntries, List.filter_eq_self]
  intro e he
  obtain ⟨name, hname, rfl⟩ := List.mem_map.1 he
  obtain ⟨f, hf, rfl⟩ := List.mem_map.1 (h hname)
  have hplain : (table.relation? f.name).isSome = false := (Table.mem_plainFields.1 hf).2
  have hrelation : table.relation? f.name = none := by simpa using hplain
  simp [Table.isPlain, Table.relationOf?, Key.name?, hrelation]

/-- The selection of all plain columns has the fields that are requested without
a selection, and stops at the same column if one of them has none. -/
theorem selectionNodes_leaves (h : table.DistinctFields) :
    selectionNodes registry tables false table (some (leaves table.plainNames)) =
      selectionNodes registry tables false table none := by
  have hcolumns :
      (leaves table.plainNames).mapM (fun e => entryNode registry tables table e.1 e.2) =
        table.plainFields.mapM (fieldNode registry table.name) := by
    rw [leaves, Table.plainNames, List.map_map, List.mapM_map]
    exact mapM_congr_of_mem fun f hf => entryNode_of_mem_plainFields h hf
  rw [selectionNodes_some, selectionNodes_none, hcolumns]

/-- The same holds of a payload, where a selection that is left empty counts as
none. -/
theorem selectionNodes_leaves_payload (h : table.DistinctFields) (payload : Bool) :
    selectionNodes registry tables payload table (some (leaves table.plainNames)) =
      selectionNodes registry tables payload table none := by
  cases payload with
  | false => exact selectionNodes_leaves h
  | true =>
      have hnone : payloadSpec table none = none := rfl
      rw [selectionNodes_payload, selectionNodes_payload, payloadSpec_some,
        plainEntries_leaves (List.Subset.refl _), hnone]
      split
      · rfl
      · exact selectionNodes_leaves h

/-! ## the preset of all columns -/

/-- Names that are new to a selection go to its end, in their order. -/
theorem addLeaves_eq_append {spec : Spec} {names : List Text} (distinct : names.Nodup)
    (fresh : ∀ name ∈ names, Assoc.has spec (Key.name name) = false) :
    addLeaves spec names = spec ++ leaves names := by
  have hnames : (names.map fun name => (name, Selection.leaf)).map Prod.fst = names := by
    rw [List.map_map]
    exact List.map_id names
  rw [addLeaves_eq, putAll_eq_append (by rwa [hnames]) (by simpa using fresh), List.map_map]
  rfl

/-- The preset `all` names every plain column. -/
theorem choiceSelection_all (h : table.DistinctFields) :
    choiceSelection table tables (.str "all") = .ok (leaves table.plainNames) := by
  have hword : Preset.ofText? ("all" : Text) = some .all := rfl
  have hadd : addLeaves [] table.plainNames = leaves table.plainNames :=
    addLeaves_eq_append (Table.plainNames_nodup h) fun _ _ => rfl
  rw [choiceSelection, wordSelection, hword]
  simp only [Preset.selection, Preset.columns, hadd]

/-! ## all columns behind a relation -/

/-- The ways to ask for all plain columns of the table behind a relation: its
name alone, the relation as a whole, or the name of each column. -/
inductive AsksDefault (tables : List Table) (table : Table) (r : Relation) : Selection → Prop where
  | leaf : AsksDefault tables table r .leaf
  | whole : AsksDefault tables table r .whole
  | columns {related : Table} (target : r.resolve table tables = .ok related)
      (distinct : related.DistinctFields) :
      AsksDefault tables table r (.nested (leaves related.plainNames))

/-- Two selections on a table that differ in one place, on the table or further
down, where each of them asks for all plain columns behind a relation. -/
inductive Swapped (tables : List Table) : Table → Spec → Spec → Prop where
  | here {table : Table} (before after : Spec) {key : Key} {r : Relation} {s s' : Selection}
      (named : table.relationOf? key = some r) (asks : AsksDefault tables table r s)
      (asks' : AsksDefault tables table r s') :
      Swapped tables table (before ++ (key, s) :: after) (before ++ (key, s') :: after)
  | behind {table related : Table} (before after : Spec) {inner inner' : Spec} {key : Key}
      {r : Relation} (named : table.relationOf? key = some r)
      (target : r.resolve table tables = .ok related)
      (next : Swapped tables related inner inner') :
      Swapped tables table (before ++ (key, .nested inner) :: after)
        (before ++ (key, .nested inner') :: after)

/-- A relation is requested with what is selected behind it. -/
theorem entryNode_of_resolve {key : Key} {r : Relation} {related : Table} (s : Selection)
    (named : table.relationOf? key = some r) (target : r.resolve table tables = .ok related) :
    entryNode registry tables table key s =
      (selectionNodes registry tables false related s.inner).map (relationNode r) := by
  simp only [entryNode, named, target]
  cases hnodes : selectionNodes registry tables false related s.inner with
  | error e => simp [hnodes, bind, Except.bind, Except.map]
  | ok nodes => simp [hnodes, bind, Except.bind, Except.map, pure, Except.pure]

/-- A relation is requested alike in all ways that ask for its columns. -/
theorem AsksDefault.entryNode_eq {key : Key} {r : Relation} {s : Selection}
    (named : table.relationOf? key = some r) (h : AsksDefault tables table r s) :
    entryNode registry tables table key s = entryNode registry tables table key .leaf := by
  cases h with
  | leaf => rfl
  | whole => simp only [entryNode, named, Selection.inner]
  | @columns related target distinct =>
      rw [entryNode_of_resolve _ named target, entryNode_of_resolve _ named target]
      simp only [Selection.inner, selectionNodes_leaves distinct]

/-- Entries that are requested alike can stand for one another. -/
theorem selectionNodes_entry_congr {before after : Spec} {key : Key} {s s' : Selection}
    (h : entryNode registry tables table key s = entryNode registry tables table key s') :
    selectionNodes registry tables false table (some (before ++ (key, s) :: after)) =
      selectionNodes registry tables false table (some (before ++ (key, s') :: after)) := by
  simp only [selectionNodes_some, List.mapM_append, List.mapM_cons, h]

/-- Swapped selections request the same. -/
theorem Swapped.selectionNodes_eq {spec spec' : Spec} (h : Swapped tables table spec spec') :
    selectionNodes registry tables false table (some spec) =
      selectionNodes registry tables false table (some spec') := by
  induction h with
  | here _ _ named asks asks' =>
      apply selectionNodes_entry_congr
      rw [asks.entryNode_eq named, asks'.entryNode_eq named]
  | behind _ _ named target _ ih =>
      apply selectionNodes_entry_congr
      rw [entryNode_of_resolve _ named target, entryNode_of_resolve _ named target]
      simp only [Selection.inner, ih]

/-- A payload leaves the relation out, in whatever way it is asked for. -/
theorem Swapped.plainEntries_eq {spec spec' : Spec} (h : Swapped tables table spec spec') :
    plainEntries table spec = plainEntries table spec' := by
  cases h with
  | here _ _ named => simp [plainEntries, Table.isPlain, named]
  | behind _ _ named _ _ => simp [plainEntries, Table.isPlain, named]

/-- Swapped selections request the same of an answer, too. -/
theorem Swapped.selectionNodes_eq_payload {spec spec' : Spec}
    (h : Swapped tables table spec spec') (payload : Bool) :
    selectionNodes registry tables payload table (some spec) =
      selectionNodes registry tables payload table (some spec') := by
  cases payload with
  | false => exact h.selectionNodes_eq
  | true =>
      rw [selectionNodes_payload, selectionNodes_payload, payloadSpec_some, payloadSpec_some,
        h.plainEntries_eq]

/-! ## the outcome of an operation -/

/-- Two selections on a table with which each operation that takes one ends in
the same document or in the same error. -/
structure SameOutcome (registry : Registry) (tables : List Table) (table : Table)
    (spec spec' : Option Spec) : Prop where
  rows : ∀ o, rowsQuery registry tables table spec o = rowsQuery registry tables table spec' o
  row : ∀ keyField keyType keyValue,
    rowQuery registry tables table spec keyField keyType keyValue =
      rowQuery registry tables table spec' keyField keyType keyValue
  create : ∀ values, createMutation registry tables table spec values =
    createMutation registry tables table spec' values
  update : ∀ rowId patch, updateMutation registry tables table spec rowId patch =
    updateMutation registry tables table spec' rowId patch

/-- An operation takes nothing from a selection but its fields. -/
theorem sameOutcome_of_nodes {spec spec' : Option Spec}
    (h : ∀ payload, selectionNodes registry tables payload table spec =
      selectionNodes registry tables payload table spec') :
    SameOutcome registry tables table spec spec' where
  rows o := by simp only [rowsQuery, h]
  row keyField keyType keyValue := by simp only [rowQuery, h]
  create values := by simp only [createMutation, rowPayload, h]
  update rowId patch := by simp only [updateMutation, rowPayload, h]

/-- **Defaults agree**: on a table with distinct columns an operation has the
same outcome without a selection, with the selection of all plain columns, and
with what the preset `all` comes to.  In any selection, at any depth, it does not
matter in which way all plain columns behind a relation are asked for. -/
theorem defaults_agree (registry : Registry) (tables : List Table) (table : Table) :
    (table.DistinctFields →
      SameOutcome registry tables table none (some (leaves table.plainNames)) ∧
      ∃ preset, choiceSelection table tables (.str "all") = .ok preset ∧
        SameOutcome registry tables table none (some preset)) ∧
    ∀ spec spec', Swapped tables table spec spec' →
      SameOutcome registry tables table (some spec) (some spec') := by
  refine ⟨fun h => ?_, fun spec spec' h => ?_⟩
  · have hleaves : SameOutcome registry tables table none (some (leaves table.plainNames)) :=
      sameOutcome_of_nodes fun payload => (selectionNodes_leaves_payload h payload).symm
    exact ⟨hleaves, _, choiceSelection_all h, hleaves⟩
  · exact sameOutcome_of_nodes fun payload => h.selectionNodes_eq_payload payload

/-- From an order to its customer, and to the orders of the customer by their
columns. -/
def Circle.ordersByColumn : Spec := [
  (.name "customer", .nested [(.name "orders", .nested [
    (.name "id", .leaf), (.name "leadTime", .leaf)])])]

/-- The same, with the orders as a whole. -/
def Circle.ordersAsWhole : Spec := [(.name "customer", .nested [(.name "orders", .whole)])]

/-- All plain columns of an order, and those of the orders of its customer, in
the ways to ask for them. -/
theorem defaults_agree_circle :
    Circle.order.DistinctFields ∧
      rowsQuery .standard Circle.tables Circle.order none {} =
        rowsQuery .standard Circle.tables Circle.order
          (some [(.name "id", .leaf), (.name "leadTime", .leaf)]) {} ∧
      Swapped Circle.tables Circle.order Circle.ordersByColumn Circle.ordersAsWhole ∧
      rowsQuery .standard Circle.tables Circle.order (some Circle.ordersByColumn) {} =
        rowsQuery .standard Circle.tables Circle.order (some Circle.ordersAsWhole) {} := by
  obtain ⟨hdefault, hswapped⟩ := defaults_agree .standard Circle.tables Circle.order
  have hdistinct : Circle.order.DistinctFields := by decide
  have horders : Swapped Circle.tables Circle.person
      [(.name "orders", .nested [(.name "id", .leaf), (.name "leadTime", .leaf)])]
      [(.name "orders", .whole)] :=
    .here [] [] rfl (.columns rfl hdistinct) .whole
  have hcustomer : Swapped Circle.tables Circle.order Circle.ordersByColumn Circle.ordersAsWhole :=
    .behind [] [] rfl rfl horders
  exact ⟨hdistinct, (hdefault hdistinct).1.rows {}, hcustomer, (hswapped _ _ hcustomer).rows {}⟩

end GraphDoc
