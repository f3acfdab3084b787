import GraphDoc.Proofs.Firsts
import GraphDoc.Proofs.Selection.Checked
import GraphDoc.Proofs.Selection.Default

/-!
# GraphDoc.Proofs.Selection.Display

The columns for display of the table behind a relation.

A table offers names for display in a fixed order: those that tell most, whether
it has them or not, and then its columns, each as far as it is a plain column
(`Table.offered`).  The first eight distinct ones are displayed
(`isFirst_displayNames_iff`), so nothing is lost as long as there are no more.
What is displayed can be requested wherever each of the columns can
(`exists_selectionNodes_leaves_iff`).
-/

namespace GraphDoc

namespace Table

variable {table : Table} {name : Text}

/-! ## what is offered -/

/-- The names that a table offers for display, those that tell most first; a name
may be offered twice. -/
def offered (table : Table) : List Text :=
  (displayColumns ++ table.fields.map Field.name).filter fun name =>
    (table.field? name).isSome && !table.isRelation name

/-- The columns that no relation shadows are offered as they stand. -/
theorem filter_fields_eq_plainNames :
    (table.fields.map Field.name).filter (fun name =>
      (table.field? name).isSome && !table.isRelation name) = table.plainNames := by
  rw [plainNames, plainFields, List.filter_map]
  refine congrArg (List.map Field.name) (List.filter_congr fun f hf => ?_)
  have hfield : (table.field? f.name).isSome = true := isSome_field?_iff.2 ⟨f, hf, rfl⟩
  rw [Function.comp_apply, hfield, Bool.true_and]

/-- What a table offers is what there is of the display columns, then its plain names.
-/
theorem offered_eq :
    table.offered = (displayColumns ++ table.plainNames).filter table.plainNames.contains := by
  have hplain : ∀ name, table.plainNames.contains name =
      ((table.field? name).isSome && !table.isRelation name) := by
    intro name
    rw [Bool.eq_iff_iff, List.contains_iff_mem, mem_plainNames_iff, Bool.and_eq_true,
      Bool.not_eq_true']
  have hall : table.plainNames.filter table.plainNames.contains = table.plainNames :=
    List.filter_eq_self.2 fun name hname => List.contains_iff_mem.2 hname
  rw [offered, List.filter_append, List.filter_append, filter_fields_eq_plainNames, hall]
  exact congrArg (· ++ table.plainNames) (List.filter_congr fun name _ => (hplain name).symm)

/-- A table offers its plain names and nothing else. -/
theorem toFinset_offered : table.offered.toFinset = table.plainNames.toFinset := by
  ext name
  simp [offered_eq]

end Table

/-! ## what is displayed -/

section

variable {registry : Registry} {tables : List Table} {table related : Table}

/-- The first eight distinct names that are offered are displayed. -/
theorem isFirst_displayNames_iff {names : List Text} :
    IsFirst 8 related.offered names ↔ names = displayNames related := by
  rw [isFirst_iff, Table.offered_eq]
  rfl

/-- Eight columns are displayed, or all where there are fewer. -/
theorem length_displayNames :
    (displayNames related).length = min 8 related.plainNames.toFinset.card := by
  rw [← Table.toFinset_offered]
  exact (isFirst_displayNames_iff.2 rfl).length

/-- Only plain names are displayed. -/
theorem displayNames_subset : displayNames related ⊆ related.plainNames :=
  fun _ => Table.mem_plainNames_of_mem_displayNames

/-- A relation is displayed by the display columns of its table. -/
theorem displaySelection_eq {name : Text} {r : Relation} (named : table.relation? name = some r)
    (target : tableNamed? tables r.target = some related) :
    displaySelection table tables (.name name) = .ok (leaves (displayNames related)) := by
  have hkey : table.relationOf? (.name name) = some r := named
  have hresolve : r.resolve table tables = .ok related := Relation.resolve_eq_ok.2 target
  simp only [displaySelection, hkey, hresolve, Except.map]

/-! ## requesting what is displayed -/

/-- A plain column can be requested by its name exactly if the column that is
found under it can. -/
theorem leaf_typed_iff_of_plain {name : Text} (h : name ∈ table.plainNames) :
    EntryTyped registry tables table (.name name) .leaf ↔
      ∀ f, table.field? name = some f → f.Classifiable registry := by
  obtain ⟨hfield, hrelation⟩ := Table.mem_plainNames_iff.1 h
  have hnone : table.relation? name = none := by simpa [Table.isRelation] using hrelation
  obtain ⟨f, hf⟩ := Option.isSome_iff_exists.1 hfield
  constructor
  · intro htyped g hg
    cases htyped with
    | relation named => exact absurd (hnone.symm.trans named) (by simp)
    | column _ named classifiable =>
        cases hg.symm.trans named
        exact classifiable
  · intro hcolumn
    exact .column hnone hf (hcolumn f hf)

/-- A selection of plain names alone is well typed if there is one and each can be
requested. -/
theorem leaves_typed_iff_of_plain {names : List Text} (hplain : names ⊆ table.plainNames) :
    WellTyped registry tables table (some (leaves names)) ↔
      names ≠ [] ∧ ∀ name ∈ names, ∀ f, table.field? name = some f → f.Classifiable registry := by
  have heach : (∀ e ∈ leaves names, EntryTyped registry tables table e.1 e.2) ↔
      ∀ name ∈ names, ∀ f, table.field? name = some f → f.Classifiable registry := by
    rw [leaves, List.forall_mem_map]
    exact forall₂_congr fun name hname => leaf_typed_iff_of_plain (hplain hname)
  have hempty : leaves names ≠ [] ↔ names ≠ [] := not_congr List.map_eq_nil_iff
  rw [← heach, ← hempty]
  constructor
  · intro h
    cases h with
    | given nonempty each => exact ⟨nonempty, each⟩
  · intro h
    exact .given h.1 h.2

/-- What is displayed can be requested, in a payload as elsewhere, exactly if it
is something and each of the columns can be requested. -/
theorem exists_selectionNodes_display_iff (payload : Bool) :
    (∃ nodes, selectionNodes registry tables payload related
      (some (leaves (displayNames related))) = .ok nodes) ↔
      displayNames related ≠ [] ∧ ∀ name ∈ displayNames related, ∀ f,
        related.field? name = some f → f.Classifiable registry := by
  have htyped : WellTyped registry tables related (some (leaves (displayNames related))) ↔ _ :=
    leaves_typed_iff_of_plain displayNames_subset
  rw [← htyped, ← exists_selectionNodes_iff]
  cases payload with
  | false => rfl
  | true =>
      rw [selectionNodes_payload, payloadSpec_some, plainEntries_leaves displayNames_subset]
      split
      · next hempty =>
        -- Only a table without plain columns displays nothing, and it has none to fall back on.
        have hnone : related.plainFields = [] := by
          by_contra hsome
          exact Table.displayNames_ne_nil hsome (List.map_eq_nil_iff.1 hempty)
        rw [hempty, selectionNodes_none, selectionNodes_some, hnone]
        rfl
      · rfl

/-- **Display**: what is read of the table behind a relation are its first eight
distinct plain columns, in the order in which the table offers them: keys first,
then the columns that tell most, then the others as they stand.  There are as many
of them as the table has plain columns, up to eight, and they can be requested on
the table exactly if there are any and each of them can. -/
theorem displaySelection_canonical {name : Text} {r : Relation}
    (named : table.relation? name = some r) (target : tableNamed? tables r.target = some related) :
    ∃ names, displaySelection table tables (.name name) = .ok (leaves names) ∧
      (∀ other, IsFirst 8 related.offered other ↔ other = names) ∧
      names.length = min 8 related.plainNames.toFinset.card ∧
      ∀ registry payload,
        (∃ nodes, selectionNodes registry tables payload related (some (leaves names)) =
          .ok nodes) ↔
        0 < related.plainNames.toFinset.card ∧
          ∀ shown ∈ names, ∀ f, related.field? shown = some f → f.Classifiable registry := by
  refine ⟨displayNames related, displaySelection_eq named target,
    fun other => isFirst_displayNames_iff, length_displayNames, fun registry payload => ?_⟩
  have hsome : displayNames related ≠ [] ↔ 0 < related.plainNames.toFinset.card := by
    rw [← List.length_pos_iff, length_displayNames]
    omega
  rw [exists_selectionNodes_display_iff, hsome]

end

namespace Staff

/-- Members of a staff, each with a superior; the relation `boss` shadows a
column. -/
def member : Table where
  name := "Member"
  fields := ["room", "email", "boss", "id", "name", "since", "team", "phone", "desk", "badge"].map
    fun name => { name := Text.ofString name, wireType := "String" }
  relations := { belongsTo := [⟨"boss", .belongsTo, "Member"⟩] }

/-- What is displayed of a superior; there is no room for `badge`. -/
def shown : List Text := ["id", "email", "name", "room", "since", "team", "phone", "desk"]

end Staff

/-- Different names make different leaves. -/
theorem leaves_injective {names other : List Text} (h : leaves names = leaves other) :
    names = other :=
  List.map_injective_iff.2 (fun _ _ he => Key.name.inj (Prod.mk.inj he).1) h

/-- Of a superior eight columns are displayed: the column that `boss` shadows is none of
them, and there is no room for `badge`. -/
theorem displaySelection_canonical_staff :
    displaySelection Staff.member [Staff.member] (.name "boss") = .ok (leaves Staff.shown) ∧
      IsFirst 8 Staff.member.offered Staff.shown ∧
      ∃ nodes, selectionNodes .standard [Staff.member] false Staff.member
        (some (leaves Staff.shown)) = .ok nodes := by
  obtain ⟨names, hnames, hfirst, _, hnodes⟩ := displaySelection_canonical
    (show Staff.member.relation? "boss" = some ⟨"boss", .belongsTo, "Member"⟩ from rfl)
    (show tableNamed? [Staff.member] "Member" = some Staff.member from rfl)
  have hvalue : displaySelection Staff.member [Staff.member] (.name "boss") =
      .ok (leaves Staff.shown) := rfl
  obtain rfl : names = Staff.shown := leaves_injective (ok_unique hnames hvalue)
  have hplain : ∀ f ∈ Staff.member.fields, f.composite = false := by decide
  refine ⟨hvalue, (hfirst _).2 rfl, (hnodes .standard false).2 ⟨by decide, ?_⟩⟩
  intro name _ f hf
  exact .inl (hplain f (Table.mem_of_field? hf).1)

end GraphDoc
