import GraphDoc.Proofs.Document.Variables
import GraphDoc.Proofs.Selection.Writes

/-!
# GraphDoc.Proofs.Selection.Checked

Choices that pass their check.

The check of a choice looks at one table.  It tells which of the names that are
given for the table are not there (`Choice.Lists.problems_eq_nil_iff`), but not
whether names that are asked of a relation are there on the related table, and
not whether anything is left to read.  `compiles_of_checked` says that nothing
else is missing: on tables that can be read by default (`Readable`) a choice
without problems comes to a selection of all that it names, and the selection
can be compiled exactly if it is not empty and every list of names asked of a
relation fits (`Listing.Fits`).
-/

namespace GraphDoc

/-! ## tables that can be read -/

/-- Consistent tables each of which has plain columns, all of which can be
requested. -/
structure Readable (registry : Registry) (tables : List Table) : Prop where
  consistent : Consistent tables
  nonempty : ∀ t ∈ tables, t.plainFields ≠ []
  classifiable : ∀ t ∈ tables, ∀ f ∈ t.plainFields, f.Classifiable registry

namespace Table

variable {table : Table} {name : Text}

/-- Whether a name is a column or a relation. -/
def has (t : Table) (name : Text) : Bool := (t.field? name).isSome || t.isRelation name

/-- A name finds a field exactly if some field has it. -/
theorem isSome_field?_iff :
    (table.field? name).isSome = true ↔ ∃ f ∈ table.fields, f.name = name := by
  simp [field?, List.find?_isSome]

/-- The plain names are those of fields that no relation shadows. -/
theorem mem_plainNames_iff :
    name ∈ table.plainNames ↔
      (table.field? name).isSome = true ∧ table.isRelation name = false := by
  rw [isSome_field?_iff, plainNames, List.mem_map]
  simp only [mem_plainFields]
  constructor
  · intro h
    obtain ⟨f, ⟨hf, hplain⟩, rfl⟩ := h
    exact ⟨⟨f, hf, rfl⟩, hplain⟩
  · intro h
    obtain ⟨⟨f, hf, rfl⟩, hplain⟩ := h
    exact ⟨f, ⟨hf, hplain⟩, rfl⟩

/-- A table has its plain names. -/
theorem has_of_mem_plainNames (h : name ∈ table.plainNames) : table.has name = true := by
  rw [has, (mem_plainNames_iff.1 h).1, Bool.true_or]

/-- Only plain columns are displayed. -/
theorem mem_plainNames_of_mem_displayNames (h : name ∈ displayNames table) :
    name ∈ table.plainNames := by
  have hwanted := List.mem_eraseDups.1 (List.mem_of_mem_take h)
  simpa using (List.mem_filter.1 hwanted).2

/-- Something is displayed of a table that has a plain column. -/
theorem displayNames_ne_nil (h : table.plainFields ≠ []) : displayNames table ≠ [] := by
  obtain ⟨f, rest, hplain⟩ := List.exists_cons_of_ne_nil h
  have hmem : f.name ∈ table.plainNames := by
    rw [plainNames, hplain]
    exact List.mem_cons_self
  have hpicked : f.name ∈ ((displayColumns ++ table.plainNames).filter
      table.plainNames.contains).eraseDups := by
    rw [List.mem_eraseDups, List.mem_filter]
    exact ⟨List.mem_append_right _ hmem, by simpa using hmem⟩
  simp only [displayNames, relatedLimit, ne_eq, List.take_eq_nil_iff, not_or]
  exact ⟨by decide, List.ne_nil_of_mem hpicked⟩

end Table

section

variable {registry : Registry} {tables : List Table} {table related : Table}

/-- By its name alone everything can be read that is there. -/
theorem Readable.leaf_typed_iff (h : Readable registry tables) (ht : table ∈ tables) {name : Text} :
    EntryTyped registry tables table (.name name) .leaf ↔ table.has name = true := by
  have hrelation : table.relationOf? (.name name) = table.relation? name := rfl
  have hfield : table.fieldOf? (.name name) = table.field? name := rfl
  constructor
  · intro htyped
    cases htyped with
    | relation named =>
        rw [hrelation] at named
        simp [Table.has, Table.isRelation, named]
    | column _ named =>
        rw [hfield] at named
        simp [Table.has, named]
  · intro hname
    cases hr : table.relation? name with
    | some r =>
        obtain ⟨related, hmem, target⟩ := h.consistent.resolve ht (Table.mem_of_relation? hr).1
        refine .relation hr (Relation.resolve_eq_ok.1 target) ?_
        exact .absent (h.nonempty related hmem) (h.classifiable related hmem)
    | none =>
        have hplain : table.isRelation name = false := by simp [Table.isRelation, hr]
        rw [Table.has, hplain, Bool.or_false] at hname
        obtain ⟨f, hf⟩ := Option.isSome_iff_exists.1 hname
        obtain ⟨hmem, rfl⟩ := Table.mem_of_field? hf
        exact .column hr hf (h.classifiable table ht f (Table.mem_plainFields.2 ⟨hmem, hplain⟩))

/-- The display columns of a table can be read. -/
theorem Readable.display_typed (h : Readable registry tables) (ht : related ∈ tables) :
    WellTyped registry tables related (some (leaves (displayNames related))) := by
  refine .given ?_ fun e he => ?_
  · rw [leaves, ne_eq, List.map_eq_nil_iff]
    exact Table.displayNames_ne_nil (h.nonempty related ht)
  · obtain ⟨name, hname, rfl⟩ := List.mem_map.1 he
    exact (h.leaf_typed_iff ht).2
      (Table.has_of_mem_plainNames (Table.mem_plainNames_of_mem_displayNames hname))

/-- Leaves are added for the names and nothing else. -/
theorem mem_addLeaves_nil {names : List Text} {e : Key × Selection} :
    e ∈ addLeaves [] names ↔ ∃ name ∈ names, e = (.name name, .leaf) := by
  rw [addLeaves_eq]
  constructor
  · intro he
    obtain ⟨w, hw, rfl⟩ := (mem_of_mem_putAll he).resolve_right List.not_mem_nil
    obtain ⟨name, hname, rfl⟩ := List.mem_map.1 hw
    exact ⟨name, hname, rfl⟩
  · rintro ⟨name, hname, rfl⟩
    have hkey : Key.name name ∈
        Assoc.keys (putAll [] (names.map fun name => (name, Selection.leaf))) :=
      mem_keys_putAll.2 (.inr ⟨_, List.mem_map_of_mem hname, rfl⟩)
    obtain ⟨s, hs⟩ := mem_keys_iff.1 hkey
    obtain ⟨w, hw, he⟩ := (mem_of_mem_putAll hs).resolve_right List.not_mem_nil
    obtain ⟨other, _, rfl⟩ := List.mem_map.1 hw
    cases he
    exact hs

/-- A list of names can be read exactly if it holds names, and only such that
are there. -/
theorem Readable.names_typed_iff (h : Readable registry tables) (ht : related ∈ tables)
    {names : List Text} :
    WellTyped registry tables related (some (addLeaves [] names)) ↔
      names ≠ [] ∧ ∀ name ∈ names, related.has name = true := by
  have hempty : addLeaves [] names = [] ↔ names = [] := by
    simp only [List.eq_nil_iff_forall_not_mem, mem_addLeaves_nil, not_exists, not_and]
    exact ⟨fun hnone name hname => hnone _ name hname rfl, fun hnone _ name hname =>
      absurd hname (hnone name)⟩
  constructor
  · intro htyped
    cases htyped with
    | given nonempty each =>
        refine ⟨fun hnames => nonempty (hempty.2 hnames), fun name hname => ?_⟩
        have hleaf := each (.name name, .leaf) (mem_addLeaves_nil.2 ⟨name, hname, rfl⟩)
        exact (h.leaf_typed_iff ht).1 hleaf
  · rintro ⟨hnames, hthere⟩
    refine .given (fun hnone => hnames (hempty.1 hnone)) fun e he => ?_
    obtain ⟨name, hname, rfl⟩ := mem_addLeaves_nil.1 he
    exact (h.leaf_typed_iff ht).2 (hthere name hname)

/-! ## listings that fit -/

/-- The names that are asked of a relation, unless it is left out, are names of
the related table, at least one. -/
def Listing.Fits (l : Listing) (table : Table) (tables : List Table) : Prop :=
  ∀ name names, (name, .names names) ∈ l.asked → name ∉ l.excluded →
    names ≠ [] ∧ ∀ r related, table.relation? name = some r →
      tableNamed? tables r.target = some related → ∀ other ∈ names, related.has other = true

/-- A table has the columns that a listing reads. -/
theorem Listing.has_of_mem_columns {l : Listing} {name : Text} (h : name ∈ l.columns table) :
    table.has name = true := by
  unfold columns at h
  cases hs : l.select with
  | none =>
      rw [hs] at h
      exact Table.has_of_mem_plainNames h
  | some names =>
      rw [hs] at h
      rw [Table.has, (List.mem_filter.1 h).2, Bool.true_or]

/-- The selection of a listing that asks for relations only where there are some
fits the table exactly if it is not empty and the listing fits. -/
theorem Listing.Gives.wellTyped_iff {l : Listing} {spec : Spec} (hg : l.Gives table tables spec)
    (h : Readable registry tables) (ht : table ∈ tables)
    (hasked : ∀ a ∈ l.asked, table.isRelation a.1 = true) :
    WellTyped registry tables table (some spec) ↔ spec ≠ [] ∧ l.Fits table tables := by
  constructor
  · intro htyped
    cases htyped with
    | given nonempty each =>
        refine ⟨nonempty, fun name names listed hkept => ?_⟩
        obtain ⟨r, hr⟩ := Option.isSome_iff_exists.1 (hasked _ listed)
        have hentry := each _ (hg.names name names r listed hr hkept)
        cases hentry with
        | @relation _ related _ _ r' named target below =>
            obtain rfl : r = r' := Option.some.inj (hr.symm.trans named)
            have hrelated := (mem_of_tableNamed? target).1
            obtain ⟨hnames, hthere⟩ := (h.names_typed_iff hrelated).1 below
            refine ⟨hnames, fun r' related' hr' target' => ?_⟩
            obtain rfl : r = r' := Option.some.inj (hr.symm.trans hr')
            obtain rfl : related = related' := Option.some.inj (target.symm.trans target')
            exact hthere
  · rintro ⟨nonempty, hfits⟩
    refine .given nonempty fun e he => ?_
    obtain ⟨key, s⟩ := e
    obtain ⟨name, rfl, hkept, hwritten⟩ := hg.written _ he
    cases hwritten with
    | column listed => exact (h.leaf_typed_iff ht).2 (l.has_of_mem_columns listed)
    | @display r related listed named target =>
        exact .relation named target (h.display_typed (mem_of_tableNamed? target).1)
    | @names names r listed named =>
        obtain ⟨hnames, hthere⟩ := hfits name names listed hkept
        obtain ⟨related, hmem, target⟩ := h.consistent.resolve ht (Table.mem_of_relation? named).1
        have target := Relation.resolve_eq_ok.1 target
        have hlisted := (h.names_typed_iff hmem).2 ⟨hnames, hthere r related named target⟩
        exact .relation named target hlisted

end

/-! ## the check of a choice -/

namespace Choice

variable {table : Table} {c : Choice} {l : Listing}

/-- Of a list of names the check tells those that are no columns. -/
theorem withoutColumn_texts (names : List Text) :
    withoutColumn table (names.map Value.str) =
      .ok ((names.filter fun name => (table.field? name).isNone).map Value.str) := by
  have hvalues : ∀ keys : List Text, (((keys.map Key.name).filter fun key =>
      (table.fieldOf? key).isNone).map Key.value) =
        (keys.filter fun name => (table.field? name).isNone).map Value.str := by
    intro keys
    rw [List.filter_map, List.map_map]
    rfl
  unfold withoutColumn
  rw [mapM_toKey_texts]
  exact congrArg Except.ok (hvalues names)

/-- A choice without problems names columns and relations of the table only. -/
theorem Lists.problems_eq_nil (h : c.Lists l) (hpassed : c.problems table = .ok []) :
    (∀ name ∈ l.select.getD [], (table.field? name).isSome = true) ∧
    (∀ name ∈ l.displayed, table.isRelation name = true) ∧
    (∀ a ∈ l.asked, table.isRelation a.1 = true) ∧
    ∀ name ∈ l.excluded, (table.field? name).isSome = true := by
  have hselect : (c.select.orElse (.arr [])).walk = .ok ((l.select.getD []).map Value.str) := by
    rw [h.select]
    cases l.select with
    | none => rfl
    | some names => cases names <;> rfl
  have hdisplayed : c.displayed.walk = .ok (l.displayed.map Value.str) := by
    rw [h.displayed]
    rfl
  have hincluded : c.included.walk = .ok (l.asked.map fun a => Value.str a.1) := by
    obtain ⟨ms, hms, hgiven⟩ := h.included
    rw [hms, Value.walk, map_eq_map_of_forall₂ hgiven fun m a hma => congrArg Value.str hma.1.symm]
  have hexcluded : c.excluded.walk = .ok (l.excluded.map Value.str) := by
    rw [h.excluded]
    rfl
  simp only [problems, hselect, hdisplayed, hincluded, hexcluded, bind, Except.bind,
    withoutColumn_texts, pure, Except.pure, Except.ok.injEq, List.append_eq_nil_iff,
    List.map_eq_nil_iff, List.filter_eq_nil_iff, List.mem_append] at hpassed
  obtain ⟨⟨⟨hcolumns, hrelations⟩, hleftOut⟩, _⟩ := hpassed
  have hfound : ∀ {α : Type} {o : Option α}, ¬ o.isNone = true → o.isSome = true := by
    intro α o ho
    rwa [Bool.not_eq_true, Option.isNone_eq_false_iff] at ho
  refine ⟨fun name hname => hfound (hcolumns name hname), fun name hname => ?_, fun a ha => ?_,
    fun name hname => hfound (hleftOut name hname)⟩
  · exact hfound (hrelations _ (.inl (List.mem_map_of_mem hname)))
  · exact hfound (hrelations _ (.inr (List.mem_map_of_mem ha)))

end Choice

namespace Listing

variable {table : Table} {tables : List Table} {l : Listing} {name : Text}

/-- The columns are those that are named, of those that exist. -/
theorem mem_columns_iff :
    name ∈ l.columns table ↔
      name ∈ l.select.getD table.plainNames ∧ (table.field? name).isSome = true := by
  unfold columns
  cases l.select with
  | none => exact (and_iff_left_of_imp fun h => (Table.mem_plainNames_iff.1 h).1).symm
  | some names => exact List.mem_filter

/-- Columns that are there are all taken. -/
theorem mem_columns_iff_of_there
    (hcolumns : ∀ name ∈ l.select.getD [], (table.field? name).isSome = true) :
    name ∈ l.columns table ↔ name ∈ l.select.getD table.plainNames := by
  refine mem_columns_iff.trans (and_iff_left_of_imp fun h => ?_)
  cases hselect : l.select with
  | none =>
      rw [hselect] at h
      exact (Table.mem_plainNames_iff.1 h).1
  | some names =>
      rw [hselect] at hcolumns h
      exact hcolumns name h

/-- On consistent tables a relation that is asked for display is written. -/
theorem exists_displayed (hc : Consistent tables) (ht : table ∈ tables)
    (hname : table.isRelation name = true)
    (hlisted : name ∈ l.displayed ∨ (name, .display) ∈ l.asked) :
    ∃ s, l.Writes table tables name s := by
  obtain ⟨r, hr⟩ := Option.isSome_iff_exists.1 hname
  obtain ⟨related, _, target⟩ := hc.resolve ht (Table.mem_of_relation? hr).1
  exact ⟨_, .display hlisted hr (Relation.resolve_eq_ok.1 target)⟩

/-- The selection of a listing that names columns and relations of the table only
has all names that are asked for and not left out. -/
theorem Gives.mem_keys_iff {spec : Spec} (hg : l.Gives table tables spec)
    (hc : Consistent tables) (ht : table ∈ tables)
    (hcolumns : ∀ name ∈ l.select.getD [], (table.field? name).isSome = true)
    (hdisplayed : ∀ name ∈ l.displayed, table.isRelation name = true)
    (hasked : ∀ a ∈ l.asked, table.isRelation a.1 = true) (name : Text) :
    .name name ∈ Assoc.keys spec ↔ name ∉ l.excluded ∧
      (name ∈ l.select.getD table.plainNames ∨ name ∈ l.displayed ∨
        ∃ wanted, (name, wanted) ∈ l.asked ∧ wanted ≠ .nothing) := by
  rw [hg.keys, ← mem_columns_iff_of_there hcolumns]
  refine and_congr_right fun _ => ?_
  constructor
  · rintro ⟨s, hs⟩
    cases hs with
    | column listed => exact .inl listed
    | display listed =>
        rcases listed with listed | listed
        · exact .inr (.inl listed)
        · exact .inr (.inr ⟨_, listed, by simp⟩)
    | names listed => exact .inr (.inr ⟨_, listed, by simp⟩)
  · rintro (listed | listed | ⟨wanted, listed, hwanted⟩)
    · exact ⟨.leaf, .column listed⟩
    · exact exists_displayed hc ht (hdisplayed name listed) (.inl listed)
    · cases wanted with
      | nothing => exact absurd rfl hwanted
      | display => exact exists_displayed hc ht (hasked _ listed) (.inr listed)
      | names names =>
          obtain ⟨r, hr⟩ := Option.isSome_iff_exists.1 (hasked _ listed)
          exact ⟨_, .names listed hr⟩

end Listing

/-! ## compiling -/

/-- Without options a query compiles exactly where its selection fits. -/
theorem exists_rowsQuery_iff_wellTyped {registry : Registry} {tables : List Table}
    {table : Table} {spec : Option Spec} :
    (∃ c, rowsQuery registry tables table spec {} = .ok c) ↔
      WellTyped registry tables table spec := by
  have hcheck : ({} : RowOptions).check = .ok () := rfl
  have hwords : ({} : RowOptions).orderWords = .ok [] := rfl
  simp [exists_rowsQuery_iff, hcheck, hwords]

/-- **Checked choices**: a choice that is made of lists of names and passes its
check comes to a selection of all names that are asked for and not left out.
The selection compiles exactly if it is not empty and every list of names that
is asked of a relation fits. -/
theorem compiles_of_checked {tables : List Table} {table : Table} {ms : Members} {l : Listing}
    (hproblems : problems tables = []) (ht : table ∈ tables)
    (hnonempty : ∀ t ∈ tables, t.plainFields ≠ [])
    (hclassifiable : ∀ t ∈ tables, ∀ f ∈ t.plainFields, f.Classifiable .standard)
    (hlists : (Choice.ofMembers ms).Lists l) (hdistinct : (Assoc.keys l.asked).Nodup)
    (hpassed : choiceProblems table (.obj ms) = .ok []) :
    ∃ spec, choiceSelection table tables (.obj ms) = .ok spec ∧
      (∀ name, .name name ∈ Assoc.keys spec ↔ name ∉ l.excluded ∧
        (name ∈ l.select.getD table.plainNames ∨ name ∈ l.displayed ∨
          ∃ wanted, (name, wanted) ∈ l.asked ∧ wanted ≠ .nothing)) ∧
      ((∃ c, rowsQuery .standard tables table (some spec) {} = .ok c) ↔
        spec ≠ [] ∧ l.Fits table tables) := by
  have hc : Consistent tables := problems_eq_nil_iff.1 hproblems
  obtain ⟨hcolumns, hdisplayed, hasked, _⟩ := hlists.problems_eq_nil hpassed
  obtain ⟨spec, hspec, hgives⟩ := hlists.exists_selection hc ht hdistinct
  refine ⟨spec, hspec, hgives.mem_keys_iff hc ht hcolumns hdisplayed hasked, ?_⟩
  rw [exists_rowsQuery_iff_wellTyped]
  exact hgives.wellTyped_iff ⟨hc, hnonempty, hclassifiable⟩ ht hasked

/-! ## orders and their customers -/

namespace Circle

theorem problems_tables : problems tables = [] := by decide

theorem plainFields_ne_nil : ∀ t ∈ tables, t.plainFields ≠ [] := by decide

theorem classifiable : ∀ t ∈ tables, ∀ f ∈ t.plainFields, f.Classifiable .standard := by
  have hcolumns : ∀ t ∈ tables, ∀ f ∈ t.plainFields,
      f.composite = false ∨ (Registry.standard.find? f.wireType).isSome = true := by decide
  intro t ht f hf
  exact (hcolumns t ht f hf).imp id Option.isSome_iff_exists.1

/-- The choice of an order by its `id` with some names of its customer. -/
def choice (names : List Text) : Members :=
  [("select", .ofTexts ["id"]), ("include", .obj [("customer", .ofTexts names)])]

def listing (names : List Text) : Listing :=
  { select := some ["id"], asked := [("customer", .names names)] }

theorem lists_choice (names : List Text) :
    (Choice.ofMembers (choice names)).Lists (listing names) :=
  ⟨rfl, ⟨_, rfl, .cons ⟨rfl, rfl⟩ .nil⟩, rfl, rfl⟩

/-- Whatever is asked of the customer, the choice passes its check. -/
theorem choiceProblems_choice (names : List Text) :
    choiceProblems order (.obj (choice names)) = .ok [] := rfl

end Circle

/-- A choice that passes its check is selected and makes a query, though its relation
leads back. -/
theorem compiles_of_checked_circle :
    choiceProblems Circle.order (.obj (Circle.choice ["id"])) = .ok [] ∧
    ∃ spec, choiceSelection Circle.order Circle.tables (.obj (Circle.choice ["id"])) = .ok spec ∧
      ∃ c, rowsQuery .standard Circle.tables Circle.order (some spec) {} = .ok c := by
  have hpassed := Circle.choiceProblems_choice ["id"]
  obtain ⟨spec, hspec, hkeys, hcompiles⟩ := compiles_of_checked Circle.problems_tables
    List.mem_cons_self Circle.plainFields_ne_nil Circle.classifiable (Circle.lists_choice ["id"])
    (List.pairwise_singleton _ _) hpassed
  refine ⟨hpassed, spec, hspec, hcompiles.2 ⟨?_, ?_⟩⟩
  · have hid : .name "id" ∈ Assoc.keys spec := (hkeys "id").2 ⟨List.not_mem_nil, .inl (by decide)⟩
    exact fun hempty => by simp [hempty] at hid
  · intro name names listed _
    cases List.mem_singleton.1 listed
    refine ⟨by decide, fun r related hr htarget => ?_⟩
    cases hr
    cases htarget
    decide

/-- Not every choice that passes its check compiles if its selection is not
empty: a name that is asked of a relation need not be there. -/
theorem not_compiles_of_checked :
    ¬ ∀ (tables : List Table) (table : Table) (ms : Members) (l : Listing),
      problems tables = [] → table ∈ tables → (∀ t ∈ tables, t.plainFields ≠ []) →
      (∀ t ∈ tables, ∀ f ∈ t.plainFields, f.Classifiable .standard) →
      (Choice.ofMembers ms).Lists l → (Assoc.keys l.asked).Nodup →
      choiceProblems table (.obj ms) = .ok [] →
        ∃ spec, choiceSelection table tables (.obj ms) = .ok spec ∧
          (spec ≠ [] → ∃ c, rowsQuery .standard tables table (some spec) {} = .ok c) := by
  intro h
  obtain ⟨spec, hspec, hcompiles⟩ := h Circle.tables Circle.order (Circle.choice ["nope"])
    (Circle.listing ["nope"]) Circle.problems_tables List.mem_cons_self Circle.plainFields_ne_nil
    Circle.classifiable (Circle.lists_choice ["nope"]) (List.pairwise_singleton _ _)
    (Circle.choiceProblems_choice ["nope"])
  have hvalue : choiceSelection Circle.order Circle.tables (.obj (Circle.choice ["nope"])) =
      .ok [(.name "id", .leaf), (.name "customer", .nested [(.name "nope", .leaf)])] := rfl
  cases ok_unique hspec hvalue
  obtain ⟨c, hc⟩ := hcompiles (by simp)
  have herror : rowsQuery .standard Circle.tables Circle.order
      (some [(.name "id", .leaf), (.name "customer", .nested [(.name "nope", .leaf)])]) {} =
        .error (.unknownField "Person" (.name "nope")) := rfl
  rw [herror] at hc
  cases hc

end GraphDoc
