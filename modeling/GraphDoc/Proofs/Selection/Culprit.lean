import GraphDoc.Proofs.Selection.Typing

/-!
# GraphDoc.Proofs.Selection.Culprit

What is wrong with a selection that fits no table, and where.

A selection that does not fit has a first entry that does not, in the order in which
the walk comes to the entries.  The walk goes down to it through relations
(`WalksDown`), and comes by entries that fit only (`ComesToEntry`).  What is wrong is
told by the table there and what is selected of it (`Culprit`), and the error of the
walk says nothing else (`selectionNodes_error_iff_culprit`).
-/

namespace GraphDoc

/-! ## the first entry that does not fit -/

section

variable (registry : Registry) (tables : List Table)

/-- The walk over the entries on a table comes to one of them: all those before it
fit, with everything that is selected below them. -/
def ComesToEntry (table : Table) (entries : Spec) (key : Key) (s : Selection) : Prop :=
  ∃ before behind, entries = before ++ (key, s) :: behind ∧
    ∀ e ∈ before, EntryTyped registry tables table e.1 e.2

/-- The walk goes down from a table with a selection to a table with what is selected
there, through relations, and comes by entries that fit only. -/
inductive WalksDown : Table → Option Spec → Table → Option Spec → Prop where
  | here {table : Table} {spec : Option Spec} : WalksDown table spec table spec
  | step {table related far : Table} {entries : Spec} {rest : Option Spec} {key : Key}
      {s : Selection} {r : Relation} (entry : ComesToEntry registry tables table entries key s)
      (named : table.relationOf? key = some r) (target : tableNamed? tables r.target = some related)
      (next : WalksDown related s.inner far rest) : WalksDown table (some entries) far rest

/-- What is wrong with an entry on a table, apart from what is selected below it. -/
inductive EntryFault (table : Table) (key : Key) : Selection → Error → Prop where
  /-- The name is neither a relation nor a column. -/
  | unknownField {s : Selection} (plain : table.relationOf? key = none)
      (unnamed : table.fieldOf? key = none) :
      EntryFault table key s (.unknownField table.name key)
  /-- A column is no relation but has a selection of its own. -/
  | notARelation {s : Selection} {f : Field} (plain : table.relationOf? key = none)
      (named : table.fieldOf? key = some f) (selects : s ≠ .leaf) :
      EntryFault table key s (.notARelation table.name key.text)
  /-- A relation leads to a table that is not there. -/
  | unknownRelatedTable {s : Selection} {r : Relation} (named : table.relationOf? key = some r)
      (missing : ∀ t ∈ tables, t.name ≠ r.target) :
      EntryFault table key s (.unknownRelatedTable table.name key.text r.target)
  /-- A column is composite, and its parts are not known. -/
  | unsupportedType {f : Field} (plain : table.relationOf? key = none)
      (named : table.fieldOf? key = some f) (composite : f.composite = true)
      (unknown : registry.find? f.wireType = none) :
      EntryFault table key .leaf (.unsupportedType table.name key.text f.wireType)

/-- What is wrong with a selection on a table, apart from what is selected below its
entries. -/
inductive Culprit (table : Table) : Option Spec → Error → Prop where
  /-- The first entry that does not fit. -/
  | entry {entries : Spec} {key : Key} {s : Selection} {e : Error}
      (entry : ComesToEntry registry tables table entries key s)
      (fault : EntryFault registry tables table key s e) : Culprit table (some entries) e
  /-- The first of the plain columns that is composite and whose parts are not known. -/
  | column {before behind : List Field} {f : Field}
      (columns : table.plainFields = before ++ f :: behind)
      (fits : ∀ g ∈ before, g.Classifiable registry) (composite : f.composite = true)
      (unknown : registry.find? f.wireType = none) :
      Culprit table none (.unsupportedType table.name f.name f.wireType)
  /-- Nothing is selected. -/
  | nothing {spec : Option Spec}
      (empty : spec = some [] ∨ (spec = none ∧ table.plainFields = [])) :
      Culprit table spec (.selection (.empty table.name))

end

/-! ## one entry -/

variable {registry : Registry} {tables : List Table} {table : Table} {key : Key} {s : Selection}
  {e : Error}

/-- Fields that are looked for one by one: the first that is not found decides, or
there are none to look for. -/
theorem nonempty_mapM_eq_error {f : α → Except Error Node} {xs : List α} :
    xs.mapM f >>= nonemptyNodes table = .error e ↔
      (∃ done x rest, xs = done ++ x :: rest ∧ (∀ y ∈ done, ∃ n, f y = .ok n) ∧ f x = .error e) ∨
        (xs = [] ∧ e = .selection (.empty table.name)) := by
  have hnone : xs.mapM f = .ok [] ↔ xs = [] := by
    rw [mapM_eq_ok, List.forall₂_nil_right_iff]
  simp only [bind_eq_error, mapM_eq_error, nonemptyNodes_eq_error]
  refine or_congr_right ⟨?_, ?_⟩
  · rintro ⟨nodes, hnodes, rfl, he⟩
    exact ⟨hnone.1 hnodes, he⟩
  · rintro ⟨hxs, he⟩
    exact ⟨[], hnone.2 hxs, rfl, he⟩

/-- A column fails exactly with its own fault. -/
theorem columnNode_eq_error (plain : table.relationOf? key = none) :
    columnNode registry table key s = .error e ↔ EntryFault registry tables table key s e := by
  constructor
  · intro h
    cases hf : table.fieldOf? key with
    | none =>
        simp only [columnNode, hf, Except.error.injEq] at h
        exact h ▸ .unknownField plain hf
    | some f =>
        have htext : key.text = f.name := by
          rw [(Table.mem_of_fieldOf? hf).2]
          rfl
        cases s with
        | leaf =>
            simp only [columnNode, hf, fieldNode_eq_error] at h
            obtain ⟨composite, unknown, rfl⟩ := h
            exact htext ▸ .unsupportedType plain hf composite unknown
        | whole =>
            simp only [columnNode, hf, Except.error.injEq] at h
            exact h ▸ .notARelation plain hf (by simp)
        | nested entries =>
            simp only [columnNode, hf, Except.error.injEq] at h
            exact h ▸ .notARelation plain hf (by simp)
  · intro h
    cases h with
    | unknownField _ unnamed => simp [columnNode, unnamed]
    | notARelation _ named selects => cases s <;> simp [columnNode, named] at selects ⊢
    | unknownRelatedTable named => simp [plain] at named
    | unsupportedType _ named composite unknown =>
        have htext : key.text = _ := congrArg Key.text (Table.mem_of_fieldOf? named).2
        simp only [columnNode, named, fieldNode_eq_error]
        exact ⟨composite, unknown, by rw [htext]; rfl⟩

/-- A relation leads nowhere exactly if that is its fault. -/
theorem resolve_eq_error_iff_fault {r : Relation} (named : table.relationOf? key = some r) :
    r.resolve table tables = .error e ↔ EntryFault registry tables table key s e := by
  have htext : key.text = r.field := congrArg Key.text (Table.mem_of_relationOf? named).2
  rw [Relation.resolve_eq_error]
  constructor
  · rintro ⟨missing, rfl⟩
    exact htext ▸ .unknownRelatedTable named missing
  · intro h
    cases h with
    | unknownField plain => simp [plain] at named
    | notARelation plain => simp [plain] at named
    | unknownRelatedTable named' missing =>
        obtain rfl : r = _ := Option.some.inj (named.symm.trans named')
        exact ⟨missing, by rw [htext]⟩
    | unsupportedType plain => simp [plain] at named

/-- Something is wrong with an entry, or with what is selected of the related table. -/
theorem entryNode_eq_error :
    entryNode registry tables table key s = .error e ↔
      EntryFault registry tables table key s e ∨
        ∃ r related, table.relationOf? key = some r ∧ tableNamed? tables r.target = some related ∧
          selectionNodes registry tables false related s.inner = .error e := by
  cases hr : table.relationOf? key with
  | none =>
      have hcolumn : columnNode registry table key s = .error e ↔
          EntryFault registry tables table key s e := columnNode_eq_error hr
      simp [entryNode, hr, hcolumn]
  | some r =>
      have hfault : r.resolve table tables = .error e ↔
          EntryFault registry tables table key s e := resolve_eq_error_iff_fault hr
      simp only [entryNode, hr, bind_eq_error, hfault, Relation.resolve_eq_ok, pure_ne_error,
        and_false, exists_false, or_false, Option.some.injEq, exists_and_left, exists_eq_left']

/-! ## the walk -/

/-- The entries before the first one without a field are those that fit. -/
theorem comesToEntry_iff {entries : Spec} :
    ComesToEntry registry tables table entries key s ↔
      ∃ before behind, entries = before ++ (key, s) :: behind ∧
        ∀ e ∈ before, ∃ n, entryNode registry tables table e.1 e.2 = .ok n := by
  simp only [ComesToEntry, exists_entryNode_iff fun related => exists_selectionNodes_iff _ related]

/-- An entry that the walk comes to and that has no field ends the walk. -/
theorem ComesToEntry.selectionNodes_eq_error {entries : Spec}
    (h : ComesToEntry registry tables table entries key s)
    (hentry : entryNode registry tables table key s = .error e) :
    selectionNodes registry tables false table (some entries) = .error e := by
  obtain ⟨before, behind, hentries, fits⟩ := comesToEntry_iff.1 h
  rw [selectionNodes_some, nonempty_mapM_eq_error]
  exact .inl ⟨before, (key, s), behind, hentries, fits, hentry⟩

/-- What is wrong with what is selected of a table ends a walk that starts there. -/
theorem Culprit.selectionNodes_eq_error {spec : Option Spec}
    (h : Culprit registry tables table spec e) :
    selectionNodes registry tables false table spec = .error e := by
  cases h with
  | entry comes fault => exact comes.selectionNodes_eq_error (entryNode_eq_error.2 (.inl fault))
  | @column before behind f columns fits composite unknown =>
      have hbefore : ∀ g ∈ before, ∃ n, fieldNode registry table.name g = .ok n := by
        simpa only [fieldNode_eq_ok, exists_columnRequest_iff] using fits
      have hf : fieldNode registry table.name f =
          .error (.unsupportedType table.name f.name f.wireType) :=
        fieldNode_eq_error.2 ⟨composite, unknown, rfl⟩
      rw [selectionNodes_none, nonempty_mapM_eq_error]
      exact .inl ⟨before, f, behind, columns, hbefore, hf⟩
  | nothing empty =>
      rcases empty with rfl | ⟨rfl, empty⟩
      · rw [selectionNodes_some, nonempty_mapM_eq_error]
        exact .inr ⟨rfl, rfl⟩
      · rw [selectionNodes_none, nonempty_mapM_eq_error]
        exact .inr ⟨empty, rfl⟩

/-- A walk that goes down ends as it does further down. -/
theorem WalksDown.selectionNodes_eq_error {far : Table} {spec rest : Option Spec}
    (h : WalksDown registry tables table spec far rest)
    (hfar : selectionNodes registry tables false far rest = .error e) :
    selectionNodes registry tables false table spec = .error e := by
  induction h with
  | here => exact hfar
  | step comes named target _ ih =>
      have hbelow := ih hfar
      exact comes.selectionNodes_eq_error
        (entryNode_eq_error.2 (.inr ⟨_, _, named, target, hbelow⟩))

/-- **The first culprit**: the walk over a selection ends with an error exactly if it
goes down to a table where what is selected of it is wrong in the way that the error
says, and comes by nothing else that is wrong. -/
theorem selectionNodes_error_iff_culprit (registry : Registry) (tables : List Table) (table : Table)
    (spec : Option Spec) (e : Error) :
    selectionNodes registry tables false table spec = .error e ↔
      ∃ far rest, WalksDown registry tables table spec far rest ∧
        Culprit registry tables far rest e := by
  constructor
  · -- The tables may lead in circles; it is the selection that gets smaller.
    induction spec using Spec.induction_on generalizing table with
    | absent =>
        intro h
        rw [selectionNodes_none, nonempty_mapM_eq_error] at h
        rcases h with ⟨before, f, behind, columns, fits, hf⟩ | ⟨empty, rfl⟩
        · simp only [fieldNode_eq_ok, exists_columnRequest_iff] at fits
          obtain ⟨composite, unknown, rfl⟩ := fieldNode_eq_error.1 hf
          exact ⟨table, none, .here, .column columns fits composite unknown⟩
        · exact ⟨table, none, .here, .nothing (.inr ⟨rfl, empty⟩)⟩
    | given entries ih =>
        intro h
        rw [selectionNodes_some, nonempty_mapM_eq_error] at h
        rcases h with ⟨before, entry, behind, hentries, fits, hentry⟩ | ⟨empty, rfl⟩
        · have comes : ComesToEntry registry tables table entries entry.1 entry.2 :=
            comesToEntry_iff.2 ⟨before, behind, hentries, fits⟩
          rcases entryNode_eq_error.1 hentry with fault | ⟨r, related, named, target, hbelow⟩
          · exact ⟨table, some entries, .here, .entry comes fault⟩
          · have hmem : entry ∈ entries := by simp [hentries]
            obtain ⟨far, rest, down, culprit⟩ := ih entry hmem related hbelow
            exact ⟨far, rest, .step comes named target down, culprit⟩
        · exact ⟨table, some entries, .here, .nothing (.inl (congrArg some empty))⟩
  · intro h
    obtain ⟨far, rest, down, culprit⟩ := h
    exact down.selectionNodes_eq_error culprit.selectionNodes_eq_error

end GraphDoc
