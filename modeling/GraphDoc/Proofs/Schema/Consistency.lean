import GraphDoc.Proofs.Steps
import GraphDoc.Schema.Validation

/-!
# GraphDoc.Proofs.Schema.Consistency

What tables from outside guarantee, one by one and as a set without problems.

* `Table.checked_of_make`: a table that was made of checked parts is checked.
* `problems_eq_nil_iff`: no problem is found exactly in a `Consistent` set,
  where each name stands once and every relation leads into the set.
* In such a set the far end of a relation is found (`Consistent.resolve`), and
  a table is the only one with its name (`Consistent.filter_name`).
-/

namespace GraphDoc

/-! ## checked tables -/

/-- A relation that could be made is checked. -/
theorem Relation.checked_of_make {field target : Value} {kind : RelationKind} {r : Relation}
    (h : Relation.make field target kind = .ok r) : r.Checked := by
  simp only [Relation.make, bind_eq_ok, pure_eq_ok] at h
  obtain ⟨f, hf, t, ht, hr⟩ := h
  rw [← hr]
  exact ⟨(checkName_eq_ok_iff.1 hf).2, (checkName_eq_ok_iff.1 ht).2⟩

/-- A table of checked columns and relations is checked. -/
theorem Table.checked_of_make {name : Value} {fields : List Field} {relations : Relations}
    {t : Table} (hfields : ∀ f ∈ fields, f.Checked) (hrelations : ∀ r ∈ relations.toList, r.Checked)
    (h : Table.make name fields relations = .ok t) : t.Checked := by
  simp only [Table.make, bind_eq_ok, pure_eq_ok] at h
  obtain ⟨s, hs, ht⟩ := h
  rw [← ht]
  exact ⟨(checkName_eq_ok_iff.1 hs).2, hfields, hrelations⟩

/-! ## repetitions -/

/-- Nothing is repeated if the texts are distinct and none was seen before. -/
theorem repeatedAfter_eq_nil {seen ss : List Text} :
    repeatedAfter seen ss = [] ↔ ss.Nodup ∧ ∀ s ∈ ss, s ∉ seen := by
  induction ss generalizing seen with
  | nil => simp [repeatedAfter]
  | cons s rest ih =>
      by_cases hs : s ∈ seen
      · simp [repeatedAfter, hs]
      · simp only [repeatedAfter, List.contains_iff_mem, hs, if_false, ih, List.nodup_cons,
          List.forall_mem_cons]
        grind

/-- Nothing is repeated exactly if the texts are distinct. -/
theorem repeated_eq_nil {ss : List Text} : repeated ss = [] ↔ ss.Nodup := by
  simp [repeated, repeatedAfter_eq_nil]

/-- Relations have no problem if their names are new and distinct and their targets
known. -/
theorem relationProblems_eq_nil {table : Text} {names seen : List Text} {rs : List Relation} :
    relationProblems table names seen rs = [] ↔
      (rs.map Relation.field).Nodup ∧ (∀ r ∈ rs, r.field ∉ seen) ∧ ∀ r ∈ rs, r.target ∈ names := by
  induction rs generalizing seen with
  | nil => simp [relationProblems]
  | cons r rest ih =>
      by_cases hf : r.field ∈ seen
      · simp [relationProblems, hf]
      · by_cases ht : r.target ∈ names
        · simp only [relationProblems, List.contains_iff_mem, hf, ht, if_false, if_true,
            List.nil_append, ih, List.map_cons, List.nodup_cons, List.forall_mem_cons]
          grind
        · simp [relationProblems, ht]

/-! ## consistent sets -/

/-- A set of tables in which each name stands once and every relation leads to
a table of the set. -/
structure Consistent (tables : List Table) : Prop where
  tables_nodup : (tables.map Table.name).Nodup
  fields_nodup : ∀ t ∈ tables, (t.fields.map Field.name).Nodup
  relations_nodup : ∀ t ∈ tables, (t.relations.toList.map Relation.field).Nodup
  target_mem : ∀ t ∈ tables, ∀ r ∈ t.relations.toList, r.target ∈ tables.map Table.name

/-- A table has no problem if its names are distinct and the targets of its relations
known. -/
theorem Table.problems_eq_nil {names : List Text} {t : Table} :
    t.problems names = [] ↔
      (t.fields.map Field.name).Nodup ∧ (t.relations.toList.map Relation.field).Nodup ∧
        ∀ r ∈ t.relations.toList, r.target ∈ names := by
  simp [Table.problems, repeated_eq_nil, relationProblems_eq_nil]

/-- Tables have no problem exactly if they are consistent. -/
theorem problems_eq_nil_iff {tables : List Table} : problems tables = [] ↔ Consistent tables := by
  simp only [problems, List.append_eq_nil_iff, List.map_eq_nil_iff, repeated_eq_nil,
    List.flatMap_eq_nil_iff, Table.problems_eq_nil]
  refine ⟨fun h => ?_, fun h => ?_⟩
  · obtain ⟨hnames, hinside⟩ := h
    exact ⟨hnames, fun t ht => (hinside t ht).1, fun t ht => (hinside t ht).2.1,
      fun t ht => (hinside t ht).2.2⟩
  · exact ⟨h.tables_nodup, fun t ht =>
      ⟨h.fields_nodup t ht, h.relations_nodup t ht, h.target_mem t ht⟩⟩

namespace Consistent

variable {tables : List Table} {t : Table}

/-- A table is the only one with its name. -/
theorem filter_name (h : Consistent tables) (ht : t ∈ tables) :
    tables.filter (fun u => u.name == t.name) = [t] := by
  have hnodup := h.tables_nodup
  clear h
  induction tables with
  | nil => exact absurd ht List.not_mem_nil
  | cons u rest ih =>
      rw [List.map_cons, List.nodup_cons] at hnodup
      obtain ⟨hu, hrest⟩ := hnodup
      rcases List.mem_cons.1 ht with rfl | ht
      · have hnone : rest.filter (fun v => v.name == t.name) = [] := by
          rw [List.filter_eq_nil_iff]
          intro v hv hname
          exact hu (List.mem_map.2 ⟨v, hv, by simpa using hname⟩)
        simp [hnone]
      · have hne : ¬ u.name = t.name := fun hname => hu (hname ▸ List.mem_map_of_mem ht)
        simp [hne, ih ht hrest]

/-- A table is found under its name. -/
theorem tableNamed?_name (h : Consistent tables) (ht : t ∈ tables) :
    tableNamed? tables t.name = some t := by
  rw [tableNamed?, ← List.head?_filter, h.filter_name ht]
  rfl

/-- The far end of a relation is found. -/
theorem resolve (h : Consistent tables) (ht : t ∈ tables) {r : Relation}
    (hr : r ∈ t.relations.toList) : ∃ related ∈ tables, r.resolve t tables = .ok related := by
  obtain ⟨related, hmem, hname⟩ := List.mem_map.1 (h.target_mem t ht r hr)
  refine ⟨related, hmem, Relation.resolve_eq_ok.2 ?_⟩
  rw [← hname]
  exact h.tableNamed?_name hmem

/-- What a key leads to is found. -/
theorem resolve_relationOf? (h : Consistent tables) (ht : t ∈ tables) {key : Key} {r : Relation}
    (hr : t.relationOf? key = some r) : ∃ related ∈ tables, r.resolve t tables = .ok related :=
  h.resolve ht (Table.mem_of_relationOf? hr).1

end Consistent

end GraphDoc
