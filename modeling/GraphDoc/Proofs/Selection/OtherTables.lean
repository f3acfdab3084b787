import GraphDoc.Document.Query
import GraphDoc.Proofs.Schema.Lookup
import GraphDoc.Proofs.Selection.Typing
import GraphDoc.Selection.Choice

/-!
# GraphDoc.Proofs.Selection.OtherTables

What the other tables have to do with the outcome on one of them.

Queries and choices look at the set of tables in one way only: a relation looks
up the table at its far end.  So a set that answers these look-ups as another one
does (`Answers`) leads to the same outcomes, whatever the order of its tables,
and a set that finds at least as much leads to success wherever the other does.
Both are one induction over the walk, with `Follows` for the two outcomes.
-/

namespace GraphDoc

/-- The tables of the second set answer the look-ups that those of the first
answer; in an exact set no other look-up is answered. -/
structure Answers (exact : Prop) (tables others : List Table) : Prop where
  found : ∀ name t, tableNamed? tables name = some t → tableNamed? others name = some t
  missing : exact → ∀ name, tableNamed? tables name = none → tableNamed? others name = none

variable {exact : Prop} {registry : Registry} {tables others : List Table} {table : Table}

/-- The same tables in another order answer the same look-ups. -/
theorem answers_of_perm (distinct : (tables.map Table.name).Nodup) (h : others.Perm tables) :
    Answers True tables others where
  found name t hfound := by rw [tableNamed?_perm distinct h, hfound]
  missing _ name hnone := by rw [tableNamed?_perm distinct h, hnone]

/-- Further tables answer no look-up differently that was answered. -/
theorem answers_of_subset (distinct : (others.map Table.name).Nodup) (h : tables ⊆ others) :
    Answers False tables others where
  found _ _ hfound := tableNamed?_of_subset distinct h hfound
  missing hexact := hexact.elim

/-! ## the walk -/

/-- The one place where the set of tables is looked at. -/
theorem Relation.resolve_follows (h : Answers exact tables others) (r : Relation) :
    Follows exact (r.resolve table tables) (r.resolve table others) where
  ok related hrelated := by
    rw [Relation.resolve_eq_ok] at hrelated ⊢
    exact h.found _ _ hrelated
  error hexact e he := by
    unfold Relation.resolve at he ⊢
    cases hnamed : tableNamed? tables r.target with
    | some related => simp [hnamed] at he
    | none =>
        rw [h.missing hexact _ hnamed]
        rwa [hnamed] at he

/-- The walk over a selection comes to the same fields, at any depth. -/
theorem selectionNodes_follows (h : Answers exact tables others) (spec : Option Spec) :
    Follows exact (selectionNodes registry tables false table spec)
      (selectionNodes registry others false table spec) := by
  induction spec using Spec.induction_on generalizing table with
  | absent =>
      rw [selectionNodes_none, selectionNodes_none]
      exact .refl _
  | given entries ih =>
      rw [selectionNodes_some, selectionNodes_some]
      refine (Follows.mapM fun e he => ?_).bind fun nodes => .refl _
      cases hr : table.relationOf? e.1 with
      | none =>
          simp only [entryNode, hr]
          exact .refl _
      | some r =>
          simp only [entryNode, hr]
          refine (r.resolve_follows h).bind fun related => ?_
          exact (ih e he).bind fun nodes => .refl _

/-! ## queries -/

/-- A query looks at the other tables through look-ups alone. -/
theorem rowsQuery_follows (h : Answers exact tables others) (spec : Option Spec) (o : RowOptions) :
    Follows exact (rowsQuery registry tables table spec o)
      (rowsQuery registry others table spec o) := by
  unfold rowsQuery
  refine (Follows.refl o.check).bind fun _ => ?_
  exact (selectionNodes_follows h spec).bind fun rows => .refl _

/-- A find-one looks at the other tables through look-ups alone. -/
theorem rowQuery_follows (h : Answers exact tables others) (spec : Option Spec)
    (keyField keyType keyValue : Value) :
    Follows exact (rowQuery registry tables table spec keyField keyType keyValue)
      (rowQuery registry others table spec keyField keyType keyValue) := by
  unfold rowQuery
  refine (Follows.refl (checkName "field" keyField)).bind fun field => ?_
  refine (Follows.refl (checkName "type" keyType)).bind fun type => ?_
  exact (selectionNodes_follows h spec).bind fun nodes => .refl _

/-! ## choices -/

/-- Display columns are found through look-ups alone. -/
theorem displaySelection_follows (h : Answers exact tables others) (relation : Key) :
    Follows exact (displaySelection table tables relation)
      (displaySelection table others relation) := by
  unfold displaySelection
  cases table.relationOf? relation with
  | none => exact .refl _
  | some r => exact (r.resolve_follows h).map fun related => leaves (displayNames related)

/-- Relations are added for display through look-ups alone. -/
theorem addRelations_follows (h : Answers exact tables others) (spec : Spec) (names : List Text) :
    Follows exact (addRelations table tables spec names)
      (addRelations table others spec names) := by
  induction names generalizing spec with
  | nil => exact .refl _
  | cons name rest ih => exact (displaySelection_follows h (.name name)).bind fun inner => ih _

/-- A preset looks at the other tables through look-ups alone. -/
theorem Preset.selection_follows (h : Answers exact tables others) (p : Preset) :
    Follows exact (p.selection table tables) (p.selection table others) := by
  cases p with
  | full => exact addRelations_follows h _ _
  | _ => exact .refl _

/-- Relations are included through look-ups alone. -/
theorem Choice.addIncluded_follows (h : Answers exact tables others) (spec : Spec)
    (wanted : List (Text × Value)) :
    Follows exact (Choice.addIncluded table tables spec wanted)
      (Choice.addIncluded table others spec wanted) := by
  induction wanted generalizing spec with
  | nil => exact .refl _
  | cons e rest ih =>
      unfold Choice.addIncluded
      split
      · exact (displaySelection_follows h _).bind fun inner => ih _
      · exact (Follows.refl _).bind fun inner => ih _
      · exact ih spec

/-- A choice looks at the other tables through look-ups alone. -/
theorem Choice.selection_follows (h : Answers exact tables others) (c : Choice) :
    Follows exact (c.selection table tables) (c.selection table others) := by
  unfold Choice.selection
  refine (Follows.refl (c.columns table)).bind fun columns => ?_
  refine (Follows.refl (c.relations table)).bind fun relations => ?_
  refine (addRelations_follows h _ relations).bind fun spec => ?_
  refine (Follows.refl c.included.members).bind fun wanted => ?_
  exact (Choice.addIncluded_follows h spec wanted).bind fun spec => .refl _

/-- Whatever is chosen, the other tables are looked at through look-ups alone. -/
theorem choiceSelection_follows (h : Answers exact tables others) (given : Value) :
    Follows exact (choiceSelection table tables given) (choiceSelection table others given) := by
  cases given with
  | null => exact Preset.selection_follows h .display
  | str word =>
      simp only [choiceSelection, wordSelection]
      cases Preset.ofText? word with
      | none => exact .refl _
      | some p => exact p.selection_follows h
  | obj ms => exact Choice.selection_follows h _
  | _ => exact .refl _

/-! ## rearranged and larger sets -/

/-- **Other tables**: where each table has a name of its own, their order does
not matter to the outcome of a query or a choice on any table, its error
included, and what succeeds among some tables has the same result among more. -/
theorem other_tables_irrelevant {tables : List Table} (distinct : (tables.map Table.name).Nodup)
    (registry : Registry) (table : Table) (spec : Option Spec) :
    (∀ others : List Table, others.Perm tables →
      (∀ o, rowsQuery registry others table spec o = rowsQuery registry tables table spec o) ∧
      (∀ keyField keyType keyValue,
        rowQuery registry others table spec keyField keyType keyValue =
          rowQuery registry tables table spec keyField keyType keyValue) ∧
      ∀ given, choiceSelection table others given = choiceSelection table tables given) ∧
    ∀ others : List Table, (others.map Table.name).Nodup → tables ⊆ others →
      (∀ o c, rowsQuery registry tables table spec o = .ok c →
        rowsQuery registry others table spec o = .ok c) ∧
      (∀ keyField keyType keyValue c,
        rowQuery registry tables table spec keyField keyType keyValue = .ok c →
          rowQuery registry others table spec keyField keyType keyValue = .ok c) ∧
      ∀ given chosen, choiceSelection table tables given = .ok chosen →
        choiceSelection table others given = .ok chosen := by
  refine ⟨fun others hperm => ?_, fun others distinct' hsub => ?_⟩
  · have h : Answers True tables others := answers_of_perm distinct hperm
    exact ⟨fun o => (rowsQuery_follows h spec o).eq.symm,
      fun keyField keyType keyValue => (rowQuery_follows h spec keyField keyType keyValue).eq.symm,
      fun given => (choiceSelection_follows h given).eq.symm⟩
  · have h : Answers False tables others := answers_of_subset distinct' hsub
    exact ⟨fun o => (rowsQuery_follows h spec o).ok,
      fun keyField keyType keyValue => (rowQuery_follows h spec keyField keyType keyValue).ok,
      fun given => (choiceSelection_follows h given).ok⟩

/-- The two tables of the circle in the other order, and with a third one in
front. -/
theorem other_tables_irrelevant_circle :
    (Circle.tables.map Table.name).Nodup ∧
      [Circle.person, Circle.order].Perm Circle.tables ∧
      rowsQuery .standard [Circle.person, Circle.order] Circle.order (some Circle.spec) {} =
        rowsQuery .standard Circle.tables Circle.order (some Circle.spec) {} ∧
      ∃ chosen, choiceSelection Circle.order Circle.tables (.str "full") = .ok chosen ∧
        choiceSelection Circle.order ({ name := "Parcel" } :: Circle.tables) (.str "full") =
          .ok chosen := by
  have hdistinct : (Circle.tables.map Table.name).Nodup := by decide
  have hperm : [Circle.person, Circle.order].Perm Circle.tables := .swap _ _ _
  obtain ⟨hsame, hmore⟩ :=
    other_tables_irrelevant hdistinct .standard Circle.order (some Circle.spec)
  have hlarger : (({ name := "Parcel" } :: Circle.tables : List Table).map Table.name).Nodup := by
    decide
  obtain ⟨_, _, hchoice⟩ := hmore _ hlarger (List.subset_cons_self _ _)
  refine ⟨hdistinct, hperm, (hsame _ hperm).1 {}, _, rfl, hchoice (.str "full") _ rfl⟩

end GraphDoc
