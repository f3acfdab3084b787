import GraphDoc.Schema.Table
import Mathlib.Data.List.Nodup

/-!
# GraphDoc.Proofs.Schema.Lookup

Look-ups by name where each name stands once.

What has a name is then what is found under it (`find?_name`): a column of a
table with distinct columns (`Table.field?_name`), or a table of a set with
distinct tables (`tableNamed?_eq_some_iff`).  So a set of tables answers as any
rearrangement of it does (`tableNamed?_perm`), and whatever it finds is found in
a larger set as well (`tableNamed?_of_subset`).
-/

namespace GraphDoc

/-- Among distinct names each finds its own. -/
theorem find?_name {α : Type} {name : α → Text} {xs : List α} (distinct : (xs.map name).Nodup)
    {x : α} (hx : x ∈ xs) : xs.find? (fun y => name y == name x) = some x := by
  cases hfound : xs.find? (fun y => name y == name x) with
  | none =>
      have hne := List.find?_eq_none.1 hfound x hx
      simp at hne
  | some y =>
      have hy : y ∈ xs := List.mem_of_find?_eq_some hfound
      have hname : name y = name x := by simpa using List.find?_some hfound
      rw [List.inj_on_of_nodup_map distinct hy hx hname]

/-! ## columns -/

namespace Table

/-- Each column of a table has a name of its own. -/
def DistinctFields (t : Table) : Prop := (t.fields.map Field.name).Nodup

instance (t : Table) : Decidable t.DistinctFields :=
  inferInstanceAs (Decidable (t.fields.map Field.name).Nodup)

/-- Each field of a table with distinct fields is found by its name. -/
theorem field?_name {t : Table} (h : t.DistinctFields) {f : Field} (hf : f ∈ t.fields) :
    t.field? f.name = some f :=
  find?_name h hf

/-- The plain names of a table with distinct fields are distinct. -/
theorem plainNames_nodup {t : Table} (h : t.DistinctFields) : t.plainNames.Nodup := by
  have hsub : t.plainNames.Sublist (t.fields.map Field.name) :=
    List.filter_sublist.map Field.name
  exact h.sublist hsub

/-- A plain column is no relation and is found by its name. -/
theorem lookups_of_mem_plainFields {t : Table} (h : t.DistinctFields) {f : Field}
    (hf : f ∈ t.plainFields) :
    t.relationOf? (.name f.name) = none ∧ t.fieldOf? (.name f.name) = some f := by
  obtain ⟨hmem, hplain⟩ := mem_plainFields.1 hf
  have hrelation : t.relation? f.name = none := by
    simpa [isRelation] using hplain
  exact ⟨hrelation, field?_name h hmem⟩

end Table

/-! ## tables -/

/-- Among tables with distinct names a name finds the table that has it. -/
theorem tableNamed?_eq_some_iff {tables : List Table} (distinct : (tables.map Table.name).Nodup)
    {name : Text} {t : Table} : tableNamed? tables name = some t ↔ t ∈ tables ∧ t.name = name := by
  constructor
  · exact mem_of_tableNamed?
  · intro h
    obtain ⟨hmem, hname⟩ := h
    rw [← hname]
    exact find?_name distinct hmem

/-- The order of the tables does not matter to a look-up. -/
theorem tableNamed?_perm {tables tables' : List Table} (distinct : (tables.map Table.name).Nodup)
    (h : tables'.Perm tables) (name : Text) :
    tableNamed? tables' name = tableNamed? tables name := by
  have distinct' : (tables'.map Table.name).Nodup := (h.map Table.name).nodup_iff.2 distinct
  apply Option.ext
  intro t
  rw [tableNamed?_eq_some_iff distinct', tableNamed?_eq_some_iff distinct, h.mem_iff]

/-- What a set of tables finds, a larger set finds too. -/
theorem tableNamed?_of_subset {tables larger : List Table}
    (distinct : (larger.map Table.name).Nodup) (h : tables ⊆ larger) {name : Text} {t : Table}
    (hfound : tableNamed? tables name = some t) : tableNamed? larger name = some t := by
  obtain ⟨hmem, hname⟩ := mem_of_tableNamed? hfound
  exact (tableNamed?_eq_some_iff distinct).2 ⟨h hmem, hname⟩

end GraphDoc
