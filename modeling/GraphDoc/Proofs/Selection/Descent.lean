import GraphDoc.Proofs.Failures
import GraphDoc.Proofs.Schema.Consistency
import GraphDoc.Proofs.Selection.Typing
import GraphDoc.Selection.Choice

/-!
# GraphDoc.Proofs.Selection.Descent

The tables that a selection leads to.

A set of tables without problems is closed under the descent: each relation on
the way finds its far end, which is again a table of the set.  So neither a
query nor a choice on such a table ever meets a relation that leads out of the
set (`IsDangling`), however deep the selection goes.
-/

namespace GraphDoc

/-- The error of a relation that leads out of the set of tables. -/
def Error.IsDangling : Error → Prop
  | .unknownRelatedTable _ _ _ => True
  | _ => False

/-- The descent from a table with a selection comes to a table with what is
selected there. -/
inductive Descends (tables : List Table) :
    Table → Option Spec → Table → Option Spec → Prop where
  | here {table : Table} {spec : Option Spec} : Descends tables table spec table spec
  | step {table related far : Table} {entries : Spec} {rest : Option Spec} {key : Key}
      {s : Selection} {r : Relation} (entry : (key, s) ∈ entries)
      (named : table.relationOf? key = some r) (target : r.resolve table tables = .ok related)
      (next : Descends tables related s.inner far rest) :
      Descends tables table (some entries) far rest

variable {registry : Registry} {tables : List Table} {table : Table}

/-- What holds of a table and of all tables of the set holds of each table on
the way down. -/
theorem Descends.forall_tables {P : Table → Prop} {spec rest : Option Spec} {far : Table}
    (h : Descends tables table spec far rest) (ht : P table) (hts : ∀ t ∈ tables, P t) : P far := by
  induction h with
  | here => exact ht
  | step _ _ target _ ih => exact ih (hts _ (Relation.mem_of_resolve target))

/-- The descent stays in the set of tables. -/
theorem Descends.mem {spec rest : Option Spec} {far : Table}
    (h : Descends tables table spec far rest) (ht : table ∈ tables) : far ∈ tables :=
  h.forall_tables ht fun _ => id

/-- The fields of a relation hold the fields of what is selected behind it. -/
theorem EntryRequest.behind {key : Key} {s : Selection} {n : Node} {r : Relation} {related : Table}
    (h : EntryRequest registry tables table key s n) (named : table.relationOf? key = some r)
    (target : r.resolve table tables = .ok related) :
    ∃ nodes, Requests registry tables related s.inner nodes := by
  obtain ⟨related', nodes, target', hn, _⟩ := (entryRequest_relation_iff named).1 h
  rw [Relation.resolve_eq_ok, target', Option.some.injEq] at target
  rw [← target]
  exact ⟨nodes, hn⟩

/-- A selection with fields has fields wherever the descent comes to. -/
theorem Descends.requests {spec rest : Option Spec} {far : Table} {nodes : List Node}
    (h : Descends tables table spec far rest)
    (hreq : Requests registry tables table spec nodes) :
    ∃ found, Requests registry tables far rest found := by
  induction h generalizing nodes with
  | here => exact ⟨nodes, hreq⟩
  | step entry named target _ ih =>
      cases hreq with
      | given _ each =>
          rw [entriesRequest_iff_forall₂] at each
          obtain ⟨n, _, hn⟩ := exists_of_forall₂_of_mem each entry
          obtain ⟨inner, hinner⟩ := hn.behind named target
          exact ih hinner

/-! ## queries -/

/-- A walk on the tables of a consistent set stays in the set: each relation finds its
far end, which is again a table of it. -/
theorem Consistent.harmless (hc : Consistent tables) :
    Harmless Error.IsDangling tables fun t _ => t ∈ tables where
  empty _ := id
  unsupported _ _ _ := id
  unknown _ _ _ := id
  nested _ _ _ := id
  dangling ht r hr := by
    obtain ⟨related, _, hres⟩ := hc.resolve ht hr
    rw [hres]
    exact avoids_ok related
  next _ _ _ target := Relation.mem_of_resolve target

/-- On consistent tables no query comes to a relation that dangles. -/
theorem Consistent.rowsQuery_avoids (hc : Consistent tables) (ht : table ∈ tables)
    (spec : Option Spec) (o : RowOptions) :
    Avoids Error.IsDangling (rowsQuery registry tables table spec o) :=
  GraphDoc.rowsQuery_avoids (o.check_avoids id fun _ _ => id)
    (selectionNodes_avoids hc.harmless ht) (o.orderWords_avoids id)

/-- On consistent tables no find-one comes to a relation that dangles. -/
theorem Consistent.rowQuery_avoids (hc : Consistent tables) (ht : table ∈ tables)
    (spec : Option Spec) (keyField keyType keyValue : Value) :
    Avoids Error.IsDangling (rowQuery registry tables table spec keyField keyType keyValue) :=
  GraphDoc.rowQuery_avoids (checkName_avoids id) (checkName_avoids id)
    (selectionNodes_avoids hc.harmless ht) keyValue

/-! ## choices -/

/-- No relation that is displayed dangles. -/
theorem displaySelection_avoids (hc : Consistent tables) (ht : table ∈ tables) (relation : Key) :
    Avoids Error.IsDangling (displaySelection table tables relation) := by
  unfold displaySelection
  cases hr : table.relationOf? relation with
  | none => exact avoids_error id
  | some r =>
      obtain ⟨related, _, hres⟩ := hc.resolve_relationOf? ht hr
      simp only [hres]
      exact (avoids_ok related).map _

/-- None of the relations that are added for display dangles. -/
theorem addRelations_avoids (hc : Consistent tables) (ht : table ∈ tables) (spec : Spec)
    (names : List Text) : Avoids Error.IsDangling (addRelations table tables spec names) := by
  induction names generalizing spec with
  | nil => exact avoids_ok spec
  | cons name rest ih =>
      exact (displaySelection_avoids hc ht (.name name)).bind fun inner _ => ih _

/-- No preset comes to a relation that dangles. -/
theorem Preset.selection_avoids (hc : Consistent tables) (ht : table ∈ tables) (p : Preset) :
    Avoids Error.IsDangling (p.selection table tables) := by
  cases p with
  | full => exact addRelations_avoids hc ht _ _
  | _ => exact avoids_ok _

namespace Choice

theorem listedLeaves_avoids (spec : Spec) (names : List Value) :
    Avoids Error.IsDangling (listedLeaves spec names) := by
  induction names generalizing spec with
  | nil => exact avoids_ok spec
  | cons v rest ih => exact (v.toKey_avoids id).bind fun key _ => ih _

/-- None of the relations that are included dangles. -/
theorem addIncluded_avoids (hc : Consistent tables) (ht : table ∈ tables) (spec : Spec)
    (wanted : List (Text × Value)) :
    Avoids Error.IsDangling (addIncluded table tables spec wanted) := by
  induction wanted generalizing spec with
  | nil => exact avoids_ok spec
  | cons e rest ih =>
      unfold addIncluded
      split
      · exact (displaySelection_avoids hc ht _).bind fun inner _ => ih _
      · exact (listedLeaves_avoids [] _).bind fun inner _ => ih _
      · exact ih spec

theorem dropExcluded_avoids (spec : Spec) (names : List Value) :
    Avoids Error.IsDangling (dropExcluded spec names) := by
  induction names generalizing spec with
  | nil => exact avoids_ok spec
  | cons v rest ih =>
      unfold dropExcluded
      split
      · exact ih spec
      · exact (v.toKey_avoids id).bind fun key _ => ih _

/-- No choice comes to a relation that dangles. -/
theorem selection_avoids (hc : Consistent tables) (ht : table ∈ tables) (c : Choice) :
    Avoids Error.IsDangling (c.selection table tables) := by
  have hcolumns : Avoids Error.IsDangling (c.columns table) := by
    unfold columns
    split
    · exact avoids_ok _
    · exact (Value.walk_avoids id _).bind fun names _ => avoids_ok _
  refine hcolumns.bind fun columns _ => ?_
  refine ((Value.walk_avoids id _).bind fun names _ => avoids_ok _).bind fun relations _ => ?_
  refine (addRelations_avoids hc ht _ relations).bind fun spec _ => ?_
  refine (Value.members_avoids id _).bind fun wanted _ => ?_
  refine (addIncluded_avoids hc ht spec wanted).bind fun spec _ => ?_
  exact (Value.walk_avoids id _).bind fun names _ => dropExcluded_avoids spec names

end Choice

/-- Whatever is chosen, by a word or by lists, no relation that dangles is come to. -/
theorem choiceSelection_avoids (hc : Consistent tables) (ht : table ∈ tables) (given : Value) :
    Avoids Error.IsDangling (choiceSelection table tables given) := by
  cases given with
  | null => exact Preset.selection_avoids hc ht .display
  | str word =>
      simp only [choiceSelection, wordSelection]
      split
      · exact Preset.selection_avoids hc ht _
      · exact avoids_error id
  | obj ms => exact Choice.selection_avoids hc ht _
  | _ => exact avoids_error id

/-! ## the descent is safe -/

/-- **Safety of the descent**: on a table of a set without problems neither
query nor any choice ends with a relation that leads out of the set.  Each
table on the way down is in the set, the only one with its name, and finds the
far ends of all its relations. -/
theorem no_dangling_of_problems_eq_nil {tables : List Table} {table : Table}
    (h : problems tables = []) (ht : table ∈ tables) :
    (∀ registry spec o, Avoids Error.IsDangling (rowsQuery registry tables table spec o)) ∧
    (∀ registry spec keyField keyType keyValue, Avoids Error.IsDangling
      (rowQuery registry tables table spec keyField keyType keyValue)) ∧
    (∀ given, Avoids Error.IsDangling (choiceSelection table tables given)) ∧
    ∀ spec far rest, Descends tables table spec far rest →
      far ∈ tables ∧ tables.filter (fun u => u.name == far.name) = [far] ∧
        ∀ r ∈ far.relations.toList, ∃ related, r.resolve far tables = .ok related := by
  have hc : Consistent tables := problems_eq_nil_iff.1 h
  refine ⟨fun registry spec o => hc.rowsQuery_avoids ht spec o,
    fun registry spec keyField keyType keyValue =>
      hc.rowQuery_avoids ht spec keyField keyType keyValue,
    fun given => choiceSelection_avoids hc ht given, fun spec far rest hfar => ?_⟩
  have hmem : far ∈ tables := hfar.mem ht
  refine ⟨hmem, hc.filter_name hmem, fun r hr => ?_⟩
  obtain ⟨related, _, hres⟩ := hc.resolve hmem hr
  exact ⟨related, hres⟩

/-- Two tables in a circle have no problems, and the descent from an order to
its customer comes to the only table of persons. -/
theorem no_dangling_circle :
    problems Circle.tables = [] ∧ Circle.order ∈ Circle.tables ∧
      Descends Circle.tables Circle.order (some Circle.spec) Circle.person
        (some Circle.personSpec) ∧
      Circle.tables.filter (fun u => u.name == Circle.person.name) = [Circle.person] ∧
      Avoids Error.IsDangling
        (rowsQuery .standard Circle.tables Circle.order (some Circle.spec) {}) := by
  have hproblems : problems Circle.tables = [] := rfl
  have hmem : Circle.order ∈ Circle.tables := List.mem_cons_self
  have hreach : Descends Circle.tables Circle.order (some Circle.spec) Circle.person
      (some Circle.personSpec) := .step (.tail _ (.head _)) rfl rfl .here
  have hsafe := no_dangling_of_problems_eq_nil hproblems hmem
  exact ⟨hproblems, hmem, hreach, (hsafe.2.2.2 _ _ _ hreach).2.1, hsafe.1 _ _ _⟩

end GraphDoc
