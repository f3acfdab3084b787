import GraphDoc.Proofs.Selection.Chosen

/-!
# GraphDoc.Proofs.Selection.Fetched

Which relations a choice reads.

A relation is read if it is in the selection, under a selection of its own or by
its name alone.  A choice ought to read those relations only that it asks for
(`Listing.FetchesAsked`).  Columns that are not named one by one are plain
columns, but a column that is named is taken even if a relation shadows it, and
its name then reads the relation.  `fetchesAsked_iff` says that this is the one
way to a relation that nothing asked for.
-/

namespace GraphDoc

/-! ## what the selection reads -/

/-- A relation has the name of a column. -/
def Table.Shadows (table : Table) (name : Text) : Prop :=
  (table.field? name).isSome = true ∧ table.isRelation name = true

/-- Of each name that is written one write stays. -/
theorem exists_mem_putAll (spec : Spec) {writes : List Write} {w : Write} (h : w ∈ writes) :
    ∃ w' ∈ writes, w'.1 = w.1 ∧ (.name w.1, w'.2) ∈ putAll spec writes := by
  induction writes using List.reverseRecOn with
  | nil => exact absurd h List.not_mem_nil
  | append_singleton writes last ih =>
      have hput : putAll spec (writes ++ [last]) =
          Assoc.put (putAll spec writes) (.name last.1) last.2 := putAll_append spec writes [last]
      rw [hput]
      by_cases hlast : last.1 = w.1
      · exact ⟨last, by simp, hlast, hlast ▸ mem_put_self _ _ _⟩
      · have hmem : w ∈ writes := by
          rcases List.mem_append.1 h with h | h
          · exact h
          · exact absurd (congrArg Prod.fst (List.mem_singleton.1 h).symm) hlast
        obtain ⟨w', hw, hname, hstays⟩ := ih hmem
        refine ⟨w', List.mem_append_left _ hw, hname, mem_put_of_ne hstays fun hkey => ?_⟩
        exact hlast (Key.name.inj hkey).symm

namespace Listing

variable {table : Table} {tables : List Table} {l : Listing} {name : Text}

/-- The relations that are followed or displayed are those that are asked for. -/
theorem mem_asked_relations_iff :
    name ∈ l.relations table ++ l.followed table ↔
      table.isRelation name = true ∧ l.AsksFor name := by
  have hrelations : name ∈ l.relations table ↔
      table.isRelation name = true ∧ name ∈ l.displayed :=
    List.mem_filter.trans and_comm
  have hasks : ∀ wanted : Wanted, wanted.asks = true ↔ wanted ≠ .nothing := by
    intro wanted
    cases wanted <;> simp [Wanted.asks]
  have hfollowed : name ∈ l.followed table ↔
      table.isRelation name = true ∧ ∃ wanted, (name, wanted) ∈ l.asked ∧ wanted ≠ .nothing := by
    simp only [followed, List.mem_map, List.mem_filter, Bool.and_eq_true, hasks]
    constructor
    · intro h
      obtain ⟨a, ⟨ha, hwanted, hrelation⟩, rfl⟩ := h
      exact ⟨hrelation, a.2, ha, hwanted⟩
    · intro h
      obtain ⟨hrelation, wanted, ha, hwanted⟩ := h
      exact ⟨(name, wanted), ⟨ha, hwanted, hrelation⟩, rfl⟩
  rw [List.mem_append, hrelations, hfollowed, ← and_or_left]
  rfl

/-- A relation is among the columns exactly if it is named as one and shadows it. -/
theorem mem_columns_iff_of_isRelation (hrelation : table.isRelation name = true) :
    name ∈ l.columns table ↔ name ∈ l.select.getD [] ∧ table.Shadows name := by
  rw [mem_columns_iff]
  cases l.select with
  | none => simp [Table.mem_plainNames_iff, hrelation]
  | some names => simp [Table.Shadows, hrelation]

/-- What is selected in the end is the columns and the relations that are asked for,
without what is left out. -/
theorem mem_keys_iff_columns {ws : List Write} (h : l.writes table tables = .ok ws) {key : Key} :
    key ∈ Assoc.keys (dropAll (putAll [] ws) l.excluded) ↔
      ∃ name, key = .name name ∧ name ∉ l.excluded ∧
        (name ∈ l.columns table ∨ table.isRelation name = true ∧ l.AsksFor name) := by
  rw [keys_of_writes h, List.mem_map]
  refine exists_congr fun name => ?_
  have horder : name ∈ l.order table ↔ name ∉ l.excluded ∧
      (name ∈ l.columns table ∨ table.isRelation name = true ∧ l.AsksFor name) := by
    rw [order, List.mem_filter, List.mem_eraseDups, List.append_assoc, List.mem_append,
      mem_asked_relations_iff, Bool.not_eq_true', List.contains_eq_mem, decide_eq_false_iff_not,
      and_comm]
  rw [horder]
  exact and_comm.trans (and_congr_left fun _ => eq_comm)

/-- A name alone stands for a column that is not asked for as a relation. -/
theorem column_of_leaf {ws : List Write} (h : l.writes table tables = .ok ws) {key : Key}
    (hleaf : (key, .leaf) ∈ dropAll (putAll [] ws) l.excluded) :
    ∃ name, key = .name name ∧ name ∉ l.excluded ∧ name ∈ l.columns table ∧
      ¬ (table.isRelation name = true ∧ l.AsksFor name) := by
  obtain ⟨name, rfl, hkept, hthere⟩ := (mem_keys_iff_columns h).1 (mem_keys_iff.2 ⟨_, hleaf⟩)
  have hnot : ¬ (table.isRelation name = true ∧ l.AsksFor name) := by
    intro hasked
    obtain ⟨behind, hws, hbehind, hnested⟩ := exists_relationWrites h
    -- What was asked was written behind the columns, and never as a name alone.
    have hwritten : name ∈ behind.map Prod.fst := hbehind ▸ mem_asked_relations_iff.2 hasked
    obtain ⟨w, hw, rfl⟩ := List.mem_map.1 hwritten
    obtain ⟨w', hw', _, hstays⟩ := exists_mem_putAll
      (putAll [] ((l.columns table).map fun name => (name, .leaf))) hw
    rw [← putAll_append, ← hws] at hstays
    have hentry : (Key.name w.1, w'.2) ∈ dropAll (putAll [] ws) l.excluded :=
      mem_dropAll.2 ⟨hstays, fun other hother hname => hkept (Key.name.inj hname ▸ hother)⟩
    have hnodup : (Assoc.keys (dropAll (putAll [] ws) l.excluded)).Nodup := by
      rw [keys_of_writes h]
      exact nodup_order
    exact hnested w' hw' (eq_of_mem_of_nodup_keys hnodup hentry hleaf)
  exact ⟨name, rfl, hkept, hthere.resolve_right hnot, hnot⟩

/-- A selection reads no relation but those that a listing asks for, and its
columns are plain ones. -/
structure FetchesAsked (l : Listing) (table : Table) (spec : Spec) : Prop where
  relations : ∀ key ∈ Assoc.keys spec, ∀ r, table.relationOf? key = some r → l.AsksFor r.field
  columns : ∀ key, (key, .leaf) ∈ spec → ∃ name ∈ table.plainNames, key = .name name

namespace FetchesAsked

/-- What a listing names as a column must not lead to a relation that it does not
ask for. -/
theorem iff_of_writes {ws : List Write} (h : l.writes table tables = .ok ws) :
    l.FetchesAsked table (dropAll (putAll [] ws) l.excluded) ↔
      ∀ name ∈ l.select.getD [], table.Shadows name → name ∈ l.excluded ∨ l.AsksFor name := by
  constructor
  · intro hfetches name listed hshadows
    by_cases hkept : name ∈ l.excluded
    · exact .inl hkept
    · obtain ⟨r, named⟩ := Option.isSome_iff_exists.1 hshadows.2
      have hcolumn := (mem_columns_iff_of_isRelation hshadows.2).2 ⟨listed, hshadows⟩
      have hkey := (mem_keys_iff_columns h).2 ⟨name, rfl, hkept, .inl hcolumn⟩
      have hasked := hfetches.relations _ hkey r named
      exact .inr ((Table.mem_of_relation? named).2 ▸ hasked)
  · intro hselect
    constructor
    · intro key hkey r named
      obtain ⟨name, rfl, hkept, hthere⟩ := (mem_keys_iff_columns h).1 hkey
      have hname : table.relation? name = some r := named
      have hrelation : table.isRelation name = true := by rw [Table.isRelation, hname]; rfl
      rw [(Table.mem_of_relation? hname).2]
      rcases hthere with hcolumn | hasked
      · obtain ⟨listed, hshadows⟩ := (mem_columns_iff_of_isRelation hrelation).1 hcolumn
        exact (hselect name listed hshadows).resolve_left hkept
      · exact hasked.2
    · intro key hleaf
      obtain ⟨name, rfl, hkept, hcolumn, hnot⟩ := column_of_leaf h hleaf
      have hplain : table.isRelation name = false := by
        refine Bool.eq_false_iff.2 fun hrelation => hnot ⟨hrelation, ?_⟩
        obtain ⟨listed, hshadows⟩ := (mem_columns_iff_of_isRelation hrelation).1 hcolumn
        exact (hselect name listed hshadows).resolve_left hkept
      exact ⟨name, Table.mem_plainNames_iff.2 ⟨(mem_columns_iff.1 hcolumn).2, hplain⟩, rfl⟩

end FetchesAsked

end Listing

/-- **Relations that are read**: a choice of lists of names comes to a selection
exactly if the relations that it displays lead to tables.  The selection then has
a relation exactly if the choice does not leave it out and asks for it, or names a
column that it shadows.  So it reads only what was asked for exactly if each
shadowed column that is named is left out or asked for as a relation as well. -/
theorem fetchesAsked_iff {tables : List Table} {table : Table} {ms : Members} {l : Listing}
    (hlists : (Choice.ofMembers ms).Lists l) :
    ((∃ spec, choiceSelection table tables (.obj ms) = .ok spec) ↔ l.Resolves table tables) ∧
      ∀ spec, choiceSelection table tables (.obj ms) = .ok spec →
        (∀ name, table.isRelation name = true →
          (.name name ∈ Assoc.keys spec ↔ name ∉ l.excluded ∧
            (l.AsksFor name ∨ name ∈ l.select.getD [] ∧ table.Shadows name))) ∧
        (l.FetchesAsked table spec ↔ ∀ name ∈ l.select.getD [],
          table.Shadows name → name ∈ l.excluded ∨ l.AsksFor name) := by
  have hselection : ∀ spec, choiceSelection table tables (.obj ms) = .ok spec ↔
      ∃ ws, l.writes table tables = .ok ws ∧ dropAll (putAll [] ws) l.excluded = spec := by
    intro spec
    rw [choiceSelection, hlists.selection_eq]
    cases l.writes table tables <;> simp [Except.map]
  constructor
  · rw [← Listing.exists_writes_iff]
    simp only [hselection]
    constructor
    · intro h
      obtain ⟨_, ws, hws, _⟩ := h
      exact ⟨ws, hws⟩
    · intro h
      obtain ⟨ws, hws⟩ := h
      exact ⟨_, ws, hws, rfl⟩
  · intro spec hspec
    obtain ⟨ws, hws, rfl⟩ := (hselection spec).1 hspec
    refine ⟨fun name hrelation => ?_, Listing.FetchesAsked.iff_of_writes hws⟩
    rw [Listing.mem_keys_iff_columns hws]
    simp [Listing.mem_columns_iff_of_isRelation hrelation, hrelation, or_comm]

/-! ## orders by their customer -/

namespace Circle

/-- A choice that names the shadowed column `customer`, with what is asked of
relations. -/
def shadowChoice (asked : List (Text × Value)) : Members :=
  [("select", .ofTexts ["id", "customer"]), ("include", .obj asked)]

end Circle

/-- The column `customer` may be named where its relation is asked for. -/
theorem fetchesAsked_iff_asked :
    choiceSelection Circle.order Circle.tables
        (.obj (Circle.shadowChoice [("customer", .bool true), ("parcel", .null)])) =
        .ok [(.name "id", .leaf), (.name "customer", .nested (leaves ["id"]))] ∧
      Listing.FetchesAsked
        { select := some ["id", "customer"],
          asked := [("customer", .display), ("parcel", .nothing)] }
        Circle.order [(.name "id", .leaf), (.name "customer", .nested (leaves ["id"]))] := by
  have hvalue : choiceSelection Circle.order Circle.tables
      (.obj (Circle.shadowChoice [("customer", .bool true), ("parcel", .null)])) =
      .ok [(.name "id", .leaf), (.name "customer", .nested (leaves ["id"]))] := rfl
  have hlists : (Choice.ofMembers (Circle.shadowChoice
      [("customer", .bool true), ("parcel", .null)])).Lists
      { select := some ["id", "customer"],
        asked := [("customer", .display), ("parcel", .nothing)] } := by
    refine ⟨rfl, ⟨_, rfl, ?_⟩, rfl, rfl⟩
    exact .cons ⟨rfl, rfl⟩ (.cons ⟨rfl, by simp [Wanted.GivenAs]⟩ .nil)
  refine ⟨hvalue, (((fetchesAsked_iff hlists).2 _ hvalue).2).2 fun name listed hshadows => .inr ?_⟩
  have hcolumn : name = "id" ∨ name = "customer" := by simpa using listed
  rcases hcolumn with rfl | rfl
  · exact absurd hshadows.2 (by decide)
  · exact .inr ⟨.display, List.mem_cons_self, by simp⟩

/-- The column `customer` alone reads the relation that shadows it. -/
theorem not_fetchesAsked_of_shadowed :
    ¬ ∀ (tables : List Table) (table : Table) (ms : Members) (l : Listing) (spec : Spec),
      (Choice.ofMembers ms).Lists l → choiceSelection table tables (.obj ms) = .ok spec →
        l.FetchesAsked table spec := by
  intro h
  have hlists : (Choice.ofMembers (Circle.shadowChoice [])).Lists
      { select := some ["id", "customer"] } :=
    ⟨rfl, ⟨[], rfl, .nil⟩, rfl, rfl⟩
  have hfetches := h Circle.tables Circle.order (Circle.shadowChoice []) _
    [(.name "id", .leaf), (.name "customer", .leaf)] hlists rfl
  obtain hasked | ⟨wanted, hasked, _⟩ := hfetches.relations (.name "customer") (by simp) _ rfl
  · exact absurd hasked List.not_mem_nil
  · exact absurd hasked List.not_mem_nil

end GraphDoc
