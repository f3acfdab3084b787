import GraphDoc.Proofs.Schema.Consistency
import GraphDoc.Request

/-!
# GraphDoc.Proofs.Schema.Loading

What loading guarantees: tables that come from a metadata file are checked, one
by one, and consistent as a set.
-/

namespace GraphDoc

/-- A field that was loaded is checked. -/
theorem Field.checked_of_ofMetadata {raw : Value} {f : Field} (h : Field.ofMetadata raw = .ok f) :
    f.Checked := by
  simp only [Field.ofMetadata, bind_eq_ok] at h
  obtain ⟨_, _, _, _, _, _, _, _, _, _, hmake⟩ := h
  exact Field.checked_of_make hmake

/-- A relation that was loaded is checked. -/
theorem Relation.checked_of_ofMetadata {kind : RelationKind} {endKey : Text} {raw : Value}
    {r : Relation} (h : Relation.ofMetadata kind endKey raw = .ok (some r)) : r.Checked := by
  unfold Relation.ofMetadata at h
  split at h
  · cases h
  · obtain ⟨ms, _, h⟩ := bind_eq_ok.1 h
    dsimp only at h
    split at h
    · cases h
    · split at h
      · cases h
      · obtain ⟨r', hmake, hr⟩ := bind_eq_ok.1 h
        cases pure_eq_ok.1 hr
        exact Relation.checked_of_make hmake

/-- The relations of each kind are checked, and so are all of them together. -/
theorem checked_of_relationsOfMetadata {raw : Value} {rs : List Relation}
    (h : relationsOfMetadata raw = .ok rs) : ∀ r ∈ rs, r.Checked := by
  simp only [relationsOfMetadata, bind_eq_ok, pure_eq_ok, mapM_eq_ok] at h
  obtain ⟨ms, _, groups, hgroups, hrs⟩ := h
  have hgroup : ∀ group ∈ groups, ∀ r ∈ group, Relation.Checked r := by
    refine forall_mem_of_forall₂ hgroups fun source _ group hkind => ?_
    simp only [relationsOfKind, bind_eq_ok, pure_eq_ok, mapM_eq_ok] at hkind
    obtain ⟨_, _, found, hfound, hgroup⟩ := hkind
    have hchecked : ∀ o ∈ found, ∀ r, o = some r → Relation.Checked r := by
      refine forall_mem_of_forall₂ hfound fun raw _ o ho r hr => ?_
      rw [hr] at ho
      exact Relation.checked_of_ofMetadata ho
    intro r hr
    rw [← hgroup, List.mem_filterMap] at hr
    obtain ⟨o, hmem, ho⟩ := hr
    exact hchecked o hmem r ho
  intro r hr
  rw [← hrs] at hr
  obtain ⟨group, hmem, hr⟩ := List.mem_flatten.1 hr
  exact hgroup group hmem r hr

/-- A table that was loaded is checked, with its fields and relations. -/
theorem Table.checked_of_ofMetadata {raw : Value} {t : Table} (h : Table.ofMetadata raw = .ok t) :
    t.Checked := by
  simp only [Table.ofMetadata, bind_eq_ok, mapM_eq_ok] at h
  obtain ⟨ms, _, relations, hrelations, _, _, columns, _, fields, hfields, hmake⟩ := h
  refine Table.checked_of_make ?_ (fun r hr => ?_) hmake
  · exact forall_mem_of_forall₂ hfields fun raw _ f hf => Field.checked_of_ofMetadata hf
  · exact checked_of_relationsOfMetadata hrelations r (Relations.mem_toList_ofList.1 hr)

/-- All tables of a payload that was loaded are checked. -/
theorem checked_of_tablesOfMetadata {payload : Value} {tables : List Table}
    (h : tablesOfMetadata payload = .ok tables) : ∀ t ∈ tables, t.Checked := by
  simp only [tablesOfMetadata, bind_eq_ok, mapM_eq_ok] at h
  obtain ⟨_, _, _, _, htables⟩ := h
  exact forall_mem_of_forall₂ htables fun raw _ t ht => Table.checked_of_ofMetadata ht

/-- Tables that were loaded are checked and consistent. -/
theorem loadTables_sound {files : Files} {requested : Option Text} {tables : List Table}
    (h : loadTables files requested = .ok tables) :
    (∀ t ∈ tables, t.Checked) ∧ Consistent tables := by
  unfold loadTables at h
  cases hpath : pathProblem? (metadataPath requested) with
  | some problem => simp [hpath] at h
  | none =>
      cases hfile : files (metadataPath requested) with
      | error fault => simp [hpath, hfile] at h
      | ok text =>
          simp only [hpath, hfile, tablesOfText] at h
          cases hparse : Json.parse (unifiedBreaks text) with
          | error fault => simp [hparse] at h
          | ok payload =>
              simp only [hparse, bind_eq_ok] at h
              obtain ⟨found, hfound, h⟩ := h
              by_cases hproblems : problems found = []
              · rw [hproblems] at h
                cases pure_eq_ok.1 h
                exact ⟨checked_of_tablesOfMetadata hfound, problems_eq_nil_iff.1 hproblems⟩
              · simp [hproblems] at h

end GraphDoc
