import GraphDoc.Proofs.Firsts
import GraphDoc.Proofs.Selection.Checked
import GraphDoc.Proofs.Selection.Default

/-!
# GraphDoc.Proofs.Selection.Presets

The presets, from the smallest to the largest.

A preset takes a first part of the plain columns of a table; `full` takes all of
them and adds each relation with the columns for display of the table behind it
(`Preset.selection_eq`).  So each preset is a first part of the next one
(`Preset.entries_isPrefix`).  On tables that can be read by default `full`
fits its table (`Readable.full_typed`), and so does every part of it that is not
empty (`WellTyped.of_subset`).
-/

namespace GraphDoc

/-! ## the columns of a preset -/

namespace Preset

variable {plain : List Text}

/-- A preset takes columns from the start. -/
theorem columns_isPrefix (p : Preset) (plain : List Text) : p.columns plain <+: plain := by
  cases p with
  | minimal => exact List.take_prefix _ _
  | display => exact List.take_prefix _ _
  | all => exact List.prefix_rfl
  | full => exact List.prefix_rfl

/-- The minimal preset takes no more columns than the one for display. -/
theorem columns_minimal_isPrefix (plain : List Text) :
    minimal.columns plain <+: display.columns plain := by
  have hbound : 3 ≤ max 5 (plain.length / 2) := by omega
  exact List.take_prefix_take_left hbound

/-- A preset takes some column if there is one. -/
theorem columns_ne_nil (p : Preset) (h : plain ≠ []) : p.columns plain ≠ [] := by
  cases p <;> simp [columns, h]

theorem ofText?_text (p : Preset) : ofText? p.text = some p := by
  cases p <;> rfl

end Preset

/-! ## the columns for display -/

/-- No column is displayed twice. -/
theorem displayNames_nodup (related : Table) : (displayNames related).Nodup :=
  (nodup_eraseDups _).sublist (List.take_sublist _ _)

/-- No more columns are displayed than the limit says. -/
theorem length_displayNames_le (related : Table) : (displayNames related).length ≤ relatedLimit :=
  List.length_take_le _ _

/-! ## relations for display -/

/-- What is written for all relations of a table, in their order. -/
def Table.Displays (tables : List Table) (table : Table) (displayed : List Write) : Prop :=
  (table.relations.toList.map Relation.field).mapM (Listing.displayWrite table tables) =
    .ok displayed

section

variable {registry : Registry} {tables : List Table} {table : Table} {displayed : List Write}

/-- In consistent tables each relation is found by its name. -/
theorem Consistent.relation?_field (h : Consistent tables) (ht : table ∈ tables) {r : Relation}
    (hr : r ∈ table.relations.toList) : table.relation? r.field = some r :=
  find?_name (h.relations_nodup table ht) hr

/-- All relations of a consistent table can be displayed. -/
theorem exists_displays (h : Consistent tables) (ht : table ∈ tables) :
    ∃ displayed, table.Displays tables displayed := by
  simp only [Table.Displays]
  rw [exists_mapM_eq_ok]
  intro name hname
  obtain ⟨r, hr, rfl⟩ := List.mem_map.1 hname
  exact Listing.exists_displayWrite h ht (h.relation?_field ht hr)

/-- Relations are displayed under their names, in order. -/
theorem Table.Displays.map_fst (h : table.Displays tables displayed) :
    displayed.map Prod.fst = table.relations.toList.map Relation.field := by
  have hnames : displayed.map Prod.fst = (table.relations.toList.map Relation.field).map id := by
    refine map_eq_map_of_forall₂ (mapM_eq_ok.1 h) fun name w hw => ?_
    obtain ⟨r, related, _, _, rfl⟩ := Listing.displayWrite_eq_ok.1 hw
    rfl
  rwa [List.map_id] at hnames

/-- Each relation is written with the columns for display of the table at its
far end. -/
theorem Table.Displays.mem_iff (h : table.Displays tables displayed) (hc : Consistent tables)
    (ht : table ∈ tables) {w : Write} :
    w ∈ displayed ↔ ∃ r ∈ table.relations.toList, ∃ related,
      tableNamed? tables r.target = some related ∧
        w = (r.field, .nested (leaves (displayNames related))) := by
  rw [mem_of_mapM_eq_ok h]
  simp only [List.mem_map, exists_exists_and_eq_and]
  refine exists_congr fun r => and_congr_right fun hr => ?_
  rw [Listing.displayWrite_eq_ok, hc.relation?_field ht hr]
  simp

/-- A relation is no plain column. -/
theorem Consistent.field_not_mem_plainNames (h : Consistent tables) (ht : table ∈ tables)
    {r : Relation} (hr : r ∈ table.relations.toList) : r.field ∉ table.plainNames := by
  intro hname
  obtain ⟨f, hf, hfield⟩ := List.mem_map.1 hname
  have hplain := (Table.mem_plainFields.1 hf).2
  rw [hfield, Table.isRelation, h.relation?_field ht hr] at hplain
  simp at hplain

/-! ## the selection of a preset -/

/-- The entries of a preset, given what is written for the relations. -/
def Preset.entries (p : Preset) (table : Table) (displayed : List Write) : Spec :=
  match p with
  | .full => leaves table.plainNames ++ displayed.map fun w => (.name w.1, w.2)
  | p => leaves (p.columns table.plainNames)

/-- A preset takes its columns, and `full` adds the relations. -/
theorem Preset.selection_eq (hc : Consistent tables) (ht : table ∈ tables)
    (h : table.Displays tables displayed) (p : Preset) :
    p.selection table tables = .ok (p.entries table displayed) := by
  have hplain : table.plainNames.Nodup := Table.plainNames_nodup (hc.fields_nodup table ht)
  have hcolumns : addLeaves [] (p.columns table.plainNames) =
      leaves (p.columns table.plainNames) :=
    addLeaves_eq_append (hplain.sublist (p.columns_isPrefix _).sublist) fun _ _ => rfl
  cases p with
  | full =>
      have hfresh : ∀ w ∈ displayed,
          Assoc.has (leaves table.plainNames) (Key.name w.1) = false := by
        intro w hw
        obtain ⟨r, hr, related, _, rfl⟩ := (h.mem_iff hc ht).1 hw
        have hother : ∀ name ∈ table.plainNames, name ≠ r.field :=
          fun name hname he => hc.field_not_mem_plainNames ht hr (he ▸ hname)
        simpa [Assoc.has, leaves] using hother
      have hnodup : (displayed.map Prod.fst).Nodup := by
        rw [h.map_fst]
        exact hc.relations_nodup table ht
      rw [columns] at hcolumns
      simp only [selection, columns, hcolumns, addRelations_eq]
      rw [h, Except.map, putAll_eq_append hnodup hfresh, entries]
  | minimal => simp only [selection, hcolumns, entries]
  | display => simp only [selection, hcolumns, entries]
  | all => simp only [selection, hcolumns, entries]

/-- The word of a preset chooses the preset. -/
theorem choiceSelection_text (p : Preset) :
    choiceSelection table tables (.str p.text) = p.selection table tables := by
  rw [choiceSelection, wordSelection, Preset.ofText?_text]

namespace Preset

/-- Each preset is a first part of the next one. -/
theorem entries_isPrefix (table : Table) (displayed : List Write) :
    minimal.entries table displayed <+: display.entries table displayed ∧
      display.entries table displayed <+: all.entries table displayed ∧
      all.entries table displayed <+: full.entries table displayed := by
  refine ⟨?_, ?_, ?_⟩
  · exact (columns_minimal_isPrefix table.plainNames).map _
  · exact (display.columns_isPrefix table.plainNames).map _
  · exact List.prefix_append _ _

/-- What a preset selects is the start of what the full one selects. -/
theorem entries_isPrefix_full (p : Preset) (table : Table) (displayed : List Write) :
    p.entries table displayed <+: full.entries table displayed := by
  obtain ⟨hminimal, hdisplay, hall⟩ := entries_isPrefix table displayed
  cases p with
  | minimal => exact (hminimal.trans hdisplay).trans hall
  | display => exact hdisplay.trans hall
  | all => exact hall
  | full => exact List.prefix_rfl

/-- A preset selects something of a table with a plain column. -/
theorem entries_ne_nil (p : Preset) (h : table.plainFields ≠ []) (displayed : List Write) :
    p.entries table displayed ≠ [] := by
  have hplain : table.plainNames ≠ [] := by simpa [Table.plainNames] using h
  cases p <;> simp [entries, leaves, hplain, columns_ne_nil]

/-- The full preset selects the plain columns and the relations for display. -/
theorem mem_entries_full {e : Key × Selection} :
    e ∈ full.entries table displayed ↔
      (∃ name ∈ table.plainNames, e = (.name name, .leaf)) ∨
        ∃ w ∈ displayed, e = (.name w.1, w.2) := by
  simp only [entries, leaves, List.mem_append, List.mem_map, eq_comm]

end Preset

/-! ## compiling -/

/-- Some entries of a selection that fits a table fit it too. -/
theorem WellTyped.of_subset {entries more : Spec} (h : WellTyped registry tables table (some more))
    (nonempty : entries ≠ []) (subset : entries ⊆ more) :
    WellTyped registry tables table (some entries) := by
  cases h with
  | given _ each => exact .given nonempty fun e he => each e (subset he)

/-- What the full preset selects of readable tables is well typed. -/
theorem Readable.full_typed (h : Readable registry tables) (ht : table ∈ tables)
    (hdisplays : table.Displays tables displayed) :
    WellTyped registry tables table (some (Preset.full.entries table displayed)) := by
  refine .given (Preset.full.entries_ne_nil (h.nonempty table ht) displayed) fun e he => ?_
  rcases Preset.mem_entries_full.1 he with ⟨name, hname, rfl⟩ | ⟨w, hw, rfl⟩
  · exact (h.leaf_typed_iff ht).2 (Table.has_of_mem_plainNames hname)
  · obtain ⟨r, hr, related, target, rfl⟩ := (hdisplays.mem_iff h.consistent ht).1 hw
    have hrelated : related ∈ tables := (mem_of_tableNamed? target).1
    exact .relation (h.consistent.relation?_field ht hr) target (h.display_typed hrelated)

/-- What any preset selects of readable tables is well typed. -/
theorem Readable.preset_typed (h : Readable registry tables) (ht : table ∈ tables)
    (hdisplays : table.Displays tables displayed) (p : Preset) :
    WellTyped registry tables table (some (p.entries table displayed)) :=
  (h.full_typed ht hdisplays).of_subset (p.entries_ne_nil (h.nonempty table ht) displayed)
    (p.entries_isPrefix_full table displayed).subset

/-- Rows can be asked for with a selection under all options that pass their
check, and one row by any key with a name and a type that are accepted. -/
structure Compiles (registry : Registry) (tables : List Table) (table : Table)
    (spec : Option Spec) : Prop where
  rows : ∀ o : RowOptions, o.check = .ok () → (∃ words, o.orderWords = .ok words) →
    ∃ c, rowsQuery registry tables table spec o = .ok c
  row : ∀ keyField keyType : Value, (∃ field, checkName "field" keyField = .ok field) →
    (∃ type, checkName "type" keyType = .ok type) →
    ∀ keyValue, ∃ c, rowQuery registry tables table spec keyField keyType keyValue = .ok c

/-- A selection that fits a table can be compiled. -/
theorem WellTyped.compiles {spec : Option Spec} (h : WellTyped registry tables table spec) :
    Compiles registry tables table spec := by
  obtain ⟨nodes, hnodes⟩ := (exists_selectionNodes_iff spec table).2 h
  constructor
  · rintro o hcheck ⟨words, hwords⟩
    have hbindings : ∃ bindings, rowBindings table o = .ok bindings := by
      simp only [rowBindings, bind_eq_ok, pure_eq_ok]
      exact ⟨_, words, hwords, rfl⟩
    obtain ⟨bindings, hbindings⟩ := hbindings
    exact ⟨_, rowsQuery_eq_ok.2 ⟨hcheck, nodes, bindings, hnodes, hbindings, rfl⟩⟩
  · rintro keyField keyType ⟨field, hfield⟩ ⟨type, htype⟩ keyValue
    exact ⟨_, rowQuery_eq_ok.2 ⟨field, type, nodes, hfield, htype, hnodes, rfl⟩⟩

end

/-- **Presets**: on consistent tables that all have plain columns, and only such
as can be requested, each preset comes to a selection.  The selections grow from
`minimal` over `display` and `all` to `full`, each a first part of the next; the
last has every plain column, and every relation with one to eight columns of the
table behind it.  Each of them compiles. -/
theorem presets_grow_and_compile {tables : List Table} {table : Table}
    (hproblems : problems tables = []) (ht : table ∈ tables)
    (hnonempty : ∀ t ∈ tables, t.plainFields ≠ [])
    (hclassifiable : ∀ t ∈ tables, ∀ f ∈ t.plainFields, f.Classifiable .standard) :
    ∃ spec : Preset → Spec,
      (∀ p, choiceSelection table tables (.str p.text) = .ok (spec p)) ∧
      (spec .minimal <+: spec .display ∧ spec .display <+: spec .all ∧ spec .all <+: spec .full) ∧
      (∀ f ∈ table.plainFields, (.name f.name, .leaf) ∈ spec .full) ∧
      (∀ r ∈ table.relations.toList, ∃ related names,
        tableNamed? tables r.target = some related ∧
        (.name r.field, .nested (leaves names)) ∈ spec .full ∧
        1 ≤ names.length ∧ names.length ≤ 8 ∧ names.Nodup ∧
        ∀ name ∈ names, ∃ f ∈ related.fields, f.name = name) ∧
      ∀ p, Compiles .standard tables table (some (spec p)) := by
  have hc : Consistent tables := problems_eq_nil_iff.1 hproblems
  have hread : Readable .standard tables := ⟨hc, hnonempty, hclassifiable⟩
  obtain ⟨displayed, hdisplays⟩ := exists_displays hc ht
  refine ⟨fun p => p.entries table displayed, fun p => ?_, Preset.entries_isPrefix table displayed,
    fun f hf => ?_, fun r hr => ?_, fun p => (hread.preset_typed ht hdisplays p).compiles⟩
  · rw [choiceSelection_text, Preset.selection_eq hc ht hdisplays]
  · exact Preset.mem_entries_full.2 (.inl ⟨f.name, List.mem_map_of_mem hf, rfl⟩)
  · obtain ⟨related, hrelated, hresolve⟩ := hc.resolve ht hr
    have target : tableNamed? tables r.target = some related := Relation.resolve_eq_ok.1 hresolve
    have hwrite : (r.field, .nested (leaves (displayNames related))) ∈ displayed :=
      (hdisplays.mem_iff hc ht).2 ⟨r, hr, related, target, rfl⟩
    have hsome : displayNames related ≠ [] := Table.displayNames_ne_nil (hnonempty related hrelated)
    refine ⟨related, displayNames related, target, ?_, List.length_pos_iff.2 hsome,
      length_displayNames_le related, displayNames_nodup related, fun name hname => ?_⟩
    · exact Preset.mem_entries_full.2 (.inr ⟨_, hwrite, rfl⟩)
    · obtain ⟨f, hf, hfield⟩ := List.mem_map.1 (Table.mem_plainNames_of_mem_displayNames hname)
      exact ⟨f, (Table.mem_plainFields.1 hf).1, hfield⟩

/-- The presets of an order, the largest with its customer by `id`. -/
theorem presets_grow_and_compile_circle :
    choiceSelection Circle.order Circle.tables (.str Preset.full.text) =
        .ok [(.name "id", .leaf), (.name "leadTime", .leaf),
          (.name "customer", .nested [(.name "id", .leaf)])] ∧
      ∃ c, rowsQuery .standard Circle.tables Circle.order
        (some [(.name "id", .leaf), (.name "leadTime", .leaf),
          (.name "customer", .nested [(.name "id", .leaf)])]) {} = .ok c := by
  obtain ⟨spec, hspec, _, _, _, hcompiles⟩ := presets_grow_and_compile Circle.problems_tables
    List.mem_cons_self Circle.plainFields_ne_nil Circle.classifiable
  have hfull : choiceSelection Circle.order Circle.tables (.str Preset.full.text) =
      .ok [(.name "id", .leaf), (.name "leadTime", .leaf),
        (.name "customer", .nested [(.name "id", .leaf)])] := rfl
  have hvalue := ok_unique (hspec .full) hfull
  refine ⟨hfull, ?_⟩
  rw [← hvalue]
  exact (hcompiles .full).rows {} rfl ⟨[], rfl⟩

end GraphDoc
