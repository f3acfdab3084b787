import GraphDoc.Proofs.Selection.Descent

/-!
# GraphDoc.Proofs.Selection.Writes

A choice as a list of writes.

A choice whose parts are lists of names (`Listing`) writes one entry after the
other: columns, relations for display, and what is asked of relations.  A later
write of a name replaces an earlier one at its place, and what is left out is
dropped at the end (`choiceSelection_eq`).  So what stands in the selection is
known from the writes alone:

* every entry was written, and every name that was written is there
  (`mem_of_mem_putAll`, `mem_keys_putAll`); the last write of a name stays
  (`mem_putAll_of_last`);
* `Listing.Writes` says by rules what is written, and `mem_writes` that nothing
  else is.
-/

namespace GraphDoc

/-! ## entries after a write -/

theorem Key.beq_name_iff {k : Key} {name : Text} : (k == .name name) = true ↔ k = .name name := by
  cases k <;> simp

section

variable {spec : Spec} {name : Text} {s : Selection} {e : Key × Selection}

/-- An entry behind a write was written or was there. -/
theorem mem_of_mem_put (h : e ∈ Assoc.put spec (.name name) s) :
    e = (.name name, s) ∨ e ∈ spec := by
  induction spec with
  | nil => exact .inl (List.mem_singleton.1 h)
  | cons first rest ih =>
      by_cases hkey : (first.1 == .name name) = true
      · rw [Assoc.put, if_pos hkey, Key.beq_name_iff.1 hkey] at h
        exact (List.mem_cons.1 h).imp id (List.mem_cons_of_mem _)
      · rw [Assoc.put, if_neg hkey] at h
        rcases List.mem_cons.1 h with h | h
        · exact .inr (h ▸ List.mem_cons_self)
        · exact (ih h).imp id (List.mem_cons_of_mem _)

/-- What is written is there. -/
theorem mem_put_self (spec : Spec) (name : Text) (s : Selection) :
    (.name name, s) ∈ Assoc.put spec (.name name) s := by
  induction spec with
  | nil => exact List.mem_singleton.2 rfl
  | cons first rest ih =>
      by_cases hkey : (first.1 == .name name) = true
      · rw [Assoc.put, if_pos hkey, Key.beq_name_iff.1 hkey]
        exact List.mem_cons_self
      · rw [Assoc.put, if_neg hkey]
        exact List.mem_cons_of_mem _ ih

/-- A write leaves the entries under other keys alone. -/
theorem mem_put_of_ne (h : e ∈ spec) (hne : e.1 ≠ .name name) :
    e ∈ Assoc.put spec (.name name) s := by
  induction spec with
  | nil => exact absurd h List.not_mem_nil
  | cons first rest ih =>
      rcases List.mem_cons.1 h with rfl | h
      · rw [Assoc.put, if_neg (mt Key.beq_name_iff.1 hne)]
        exact List.mem_cons_self
      · rw [Assoc.put]
        split
        · exact List.mem_cons_of_mem _ h
        · exact List.mem_cons_of_mem _ (ih h)

theorem mem_keys_iff {key : Key} : key ∈ Assoc.keys spec ↔ ∃ s, (key, s) ∈ spec := by
  simp [Assoc.keys]

/-- A write adds at most its own key. -/
theorem mem_keys_put {key : Key} :
    key ∈ Assoc.keys (Assoc.put spec (.name name) s) ↔
      key = .name name ∨ key ∈ Assoc.keys spec := by
  simp only [mem_keys_iff]
  constructor
  · rintro ⟨s', h⟩
    rcases mem_of_mem_put h with h | h
    · exact .inl (congrArg Prod.fst h)
    · exact .inr ⟨s', h⟩
  · intro h
    by_cases hkey : key = .name name
    · exact ⟨s, hkey ▸ mem_put_self spec name s⟩
    · obtain ⟨s', h⟩ := h.resolve_left hkey
      exact ⟨s', mem_put_of_ne h hkey⟩

end

/-! ## entries after a row of writes -/

/-- A name and what is selected under it. -/
abbrev Write := Text × Selection

/-- The selection after some writes, one after the other. -/
def putAll (spec : Spec) (writes : List Write) : Spec :=
  writes.foldl (fun done w => Assoc.put done (.name w.1) w.2) spec

/-- The selection without some names. -/
def dropAll (spec : Spec) (names : List Text) : Spec :=
  names.foldl (fun rest name => Assoc.drop rest (.name name)) spec

section

variable {spec : Spec} {writes : List Write} {e : Key × Selection}

/-- Writes can be made in two runs. -/
theorem putAll_append (spec : Spec) (before after : List Write) :
    putAll spec (before ++ after) = putAll (putAll spec before) after := List.foldl_append

/-- Names that are new to a selection go to its end, in their order. -/
theorem putAll_eq_append (distinct : (writes.map Prod.fst).Nodup)
    (fresh : ∀ w ∈ writes, Assoc.has spec (Key.name w.1) = false) :
    putAll spec writes = spec ++ writes.map fun w => (.name w.1, w.2) := by
  induction writes generalizing spec with
  | nil => simp [putAll]
  | cons w rest ih =>
      rw [List.map_cons, List.nodup_cons] at distinct
      rw [List.forall_mem_cons] at fresh
      have hput : Assoc.put spec (Key.name w.1) w.2 = spec ++ [(.name w.1, w.2)] :=
        Assoc.put_of_not_has spec (Key.name w.1) w.2 fresh.1
      have hfresh : ∀ other ∈ rest,
          Assoc.has (spec ++ [(Key.name w.1, w.2)]) (Key.name other.1) = false := by
        intro other hother
        have hne : w.1 ≠ other.1 := fun h => distinct.1 (h ▸ List.mem_map_of_mem hother)
        have hspec := fresh.2 other hother
        rw [Assoc.has] at hspec ⊢
        simp [hspec, hne]
      have hcons : putAll spec (w :: rest) = putAll (Assoc.put spec (.name w.1) w.2) rest := rfl
      rw [hcons, hput, ih distinct.2 hfresh]
      simp

/-- An entry behind writes comes from one of them or was there. -/
theorem mem_of_mem_putAll (h : e ∈ putAll spec writes) :
    (∃ w ∈ writes, e = (.name w.1, w.2)) ∨ e ∈ spec := by
  induction writes generalizing spec with
  | nil => exact .inr h
  | cons w rest ih =>
      rcases ih h with ⟨w', hw, he⟩ | h
      · exact .inl ⟨w', List.mem_cons_of_mem _ hw, he⟩
      · exact (mem_of_mem_put h).imp (fun he => ⟨w, List.mem_cons_self, he⟩) id

/-- Writes add their keys and take none away. -/
theorem mem_keys_putAll {key : Key} :
    key ∈ Assoc.keys (putAll spec writes) ↔
      key ∈ Assoc.keys spec ∨ ∃ w ∈ writes, key = .name w.1 := by
  induction writes generalizing spec with
  | nil => simp [putAll]
  | cons w rest ih =>
      have hcons : putAll spec (w :: rest) = putAll (Assoc.put spec (.name w.1) w.2) rest := rfl
      rw [hcons, ih, mem_keys_put, List.exists_mem_cons_iff]
      tauto

/-- Writes leave the entries under other keys alone. -/
theorem mem_putAll_of_mem (h : e ∈ spec) (hlast : ∀ w ∈ writes, e.1 ≠ .name w.1) :
    e ∈ putAll spec writes := by
  induction writes generalizing spec with
  | nil => exact h
  | cons w rest ih =>
      rw [List.forall_mem_cons] at hlast
      exact ih (mem_put_of_ne h hlast.1) hlast.2

/-- The last write of a name stays. -/
theorem mem_putAll_of_last (spec : Spec) (before : List Write) {name : Text} {s : Selection}
    {after : List Write} (hlast : ∀ w ∈ after, w.1 ≠ name) :
    (.name name, s) ∈ putAll spec (before ++ (name, s) :: after) := by
  have hcons : ∀ done : Spec, putAll done ((name, s) :: after) =
      putAll (Assoc.put done (.name name) s) after := fun _ => rfl
  rw [putAll_append, hcons]
  refine mem_putAll_of_mem (mem_put_self _ name s) fun w hw h => ?_
  exact hlast w hw (Key.name.inj h).symm

/-- What is dropped is what stands under the names. -/
theorem mem_dropAll {names : List Text} :
    e ∈ dropAll spec names ↔ e ∈ spec ∧ ∀ name ∈ names, e.1 ≠ .name name := by
  induction names generalizing spec with
  | nil => simp [dropAll]
  | cons name rest ih =>
      have hcons : dropAll spec (name :: rest) = dropAll (Assoc.drop spec (.name name)) rest := rfl
      have hdrop : e ∈ Assoc.drop spec (.name name) ↔ e ∈ spec ∧ e.1 ≠ .name name := by
        rw [Assoc.drop, List.mem_filter, Bool.not_eq_true', ← Bool.not_eq_true,
          Key.beq_name_iff]
      rw [hcons, ih, hdrop, List.forall_mem_cons, and_assoc]

/-- A key is left if it was there and is not dropped. -/
theorem mem_keys_dropAll {names : List Text} {name : Text} :
    .name name ∈ Assoc.keys (dropAll spec names) ↔
      .name name ∈ Assoc.keys spec ∧ name ∉ names := by
  simp only [mem_keys_iff, mem_dropAll, exists_and_right, ne_eq, Key.name.injEq,
    and_congr_right_iff]
  intro _
  exact ⟨fun h hname => h name hname rfl, fun h other hother he => h (he ▸ hother)⟩

end

/-! ## listings -/

/-- What may be asked of a relation: nothing, the columns for display, or a list
of names. -/
inductive Wanted where
  | nothing
  | display
  | names (ns : List Text)

/-- A value asks something of a relation: `true` asks for display, a list of names
for the names, and all but `true` and lists asks for nothing. -/
def Wanted.GivenAs (v : Value) : Wanted → Prop
  | nothing => v ≠ .bool true ∧ ∀ items, v ≠ .arr items
  | display => v = .bool true
  | names ns => v = .ofTexts ns

/-- The lists that make a choice: columns, unless all plain ones are to be read,
what is asked of relations, relations for display, and what is left out. -/
structure Listing where
  select : Option (List Text) := none
  asked : List (Text × Wanted) := []
  displayed : List Text := []
  excluded : List Text := []

/-- The lists of a choice are lists of names, those of a listing. -/
structure Choice.Lists (c : Choice) (l : Listing) : Prop where
  select : c.select = Value.ofOption (l.select.map .ofTexts)
  included : ∃ ms, c.included = .obj ms ∧
    List.Forall₂ (fun m a => m.1 = a.1 ∧ a.2.GivenAs m.2) ms l.asked
  displayed : c.displayed = .ofTexts l.displayed
  excluded : c.excluded = .ofTexts l.excluded

namespace Listing

/-- The columns that a listing names, of those that exist, or all plain ones. -/
def columns (l : Listing) (table : Table) : List Text :=
  match l.select with
  | none => table.plainNames
  | some names => names.filter fun name => (table.field? name).isSome

/-- The relations for display that a listing names, of those that exist. -/
def relations (l : Listing) (table : Table) : List Text := l.displayed.filter table.isRelation

/-- The write of a relation for display. -/
def displayWrite (table : Table) (tables : List Table) (name : Text) : Except Error Write :=
  (displaySelection table tables (.name name)).map fun inner => (name, .nested inner)

/-- What is written for something that is asked of a relation. -/
def askedWrites (table : Table) (tables : List Table) (a : Text × Wanted) :
    Except Error (List Write) :=
  match table.relation? a.1, a.2 with
  | some _, .display => (displayWrite table tables a.1).map fun w => [w]
  | some _, .names ns => .ok [(a.1, .nested (addLeaves [] ns))]
  | _, _ => .ok []

/-- All that is written for a listing, in order. -/
def writes (l : Listing) (table : Table) (tables : List Table) : Except Error (List Write) := do
  let displayed ← (l.relations table).mapM (displayWrite table tables)
  let asked ← l.asked.mapM (askedWrites table tables)
  return (l.columns table).map (fun name => (name, .leaf)) ++ displayed ++ asked.flatten

end Listing

/-! ## a choice writes what is listed -/

section

variable {table : Table} {tables : List Table}

/-- Names are added as leaves by writes. -/
theorem addLeaves_eq (spec : Spec) (names : List Text) :
    addLeaves spec names = putAll spec (names.map fun name => (name, .leaf)) := by
  rw [putAll, List.foldl_map]
  rfl

/-- Relations are added for display by writes, if each can be displayed. -/
theorem addRelations_eq (spec : Spec) (names : List Text) :
    addRelations table tables spec names =
      (names.mapM (Listing.displayWrite table tables)).map (putAll spec) := by
  induction names generalizing spec with
  | nil => rfl
  | cons name rest ih =>
      rw [addRelations, List.mapM_cons, Listing.displayWrite]
      cases displaySelection table tables (.name name) with
      | error e => rfl
      | ok inner =>
          refine (ih _).trans ?_
          cases rest.mapM (Listing.displayWrite table tables) <;> rfl

namespace Choice

/-- A list of texts is read as names, each a leaf. -/
theorem listedLeaves_texts (spec : Spec) (names : List Text) :
    listedLeaves spec (names.map Value.str) = .ok (addLeaves spec names) := by
  induction names generalizing spec with
  | nil => rfl
  | cons name rest ih => exact ih _

/-- Only `true` and lists count. -/
theorem addIncluded_of_nothing {v : Value} (h : Wanted.nothing.GivenAs v) (spec : Spec)
    (name : Text) (rest : List (Text × Value)) :
    addIncluded table tables spec ((name, v) :: rest) = addIncluded table tables spec rest := by
  rw [addIncluded]
  · exact fun _ _ htrue => h.1 htrue
  · exact fun _ items _ hlist => h.2 items hlist

/-- What is asked of one relation is written before the others are looked at. -/
theorem addIncluded_cons (spec : Spec) {name : Text} {v : Value} {wanted : Wanted}
    (h : wanted.GivenAs v) (rest : List (Text × Value)) :
    addIncluded table tables spec ((name, v) :: rest) =
      Listing.askedWrites table tables (name, wanted) >>= fun ws =>
        addIncluded table tables (putAll spec ws) rest := by
  cases wanted with
  | nothing =>
      rw [addIncluded_of_nothing h, Listing.askedWrites]
      cases table.relation? name <;> rfl
  | names ns =>
      rw [show v = .ofTexts ns from h]
      cases hr : table.relation? name with
      | none =>
          simp only [addIncluded, Listing.askedWrites, hr]
          rfl
      | some r =>
          simp only [addIncluded, Value.ofTexts, Listing.askedWrites, hr, listedLeaves_texts]
          rfl
  | display =>
      rw [show v = .bool true from h]
      cases hr : table.relation? name with
      | none =>
          simp only [addIncluded, Listing.askedWrites, hr]
          rfl
      | some r =>
          simp only [addIncluded, Listing.askedWrites, hr, Listing.displayWrite]
          cases displaySelection table tables (.name name) <;> rfl

/-- What is included is written relation by relation. -/
theorem addIncluded_eq {ms : List (Text × Value)} {asked : List (Text × Wanted)}
    (h : List.Forall₂ (fun m a => m.1 = a.1 ∧ a.2.GivenAs m.2) ms asked) (spec : Spec) :
    addIncluded table tables spec ms =
      (asked.mapM (Listing.askedWrites table tables)).map fun ws => putAll spec ws.flatten := by
  induction h generalizing spec with
  | nil => rfl
  | @cons m a ms asked hgiven _ ih =>
      obtain ⟨name, v⟩ := m
      obtain ⟨_, wanted⟩ := a
      obtain ⟨rfl, hgiven⟩ := hgiven
      rw [addIncluded_cons spec hgiven, List.mapM_cons]
      cases Listing.askedWrites table tables (name, wanted) with
      | error e => rfl
      | ok ws =>
          refine (ih _).trans ?_
          cases asked.mapM (Listing.askedWrites table tables) with
          | error e => rfl
          | ok others => exact congrArg Except.ok (putAll_append spec ws others.flatten).symm

/-- A list of texts drops what stands under the names. -/
theorem dropExcluded_texts (spec : Spec) (names : List Text) :
    dropExcluded spec (names.map Value.str) = .ok (dropAll spec names) := by
  induction names generalizing spec with
  | nil => rfl
  | cons name rest ih =>
      have hcons : dropAll spec (name :: rest) = dropAll (Assoc.drop spec (.name name)) rest := rfl
      rw [List.map_cons, dropExcluded, hcons]
      split
      · next hempty =>
        obtain rfl : spec = [] := List.isEmpty_iff.1 hempty
        exact ih []
      · exact ih _

variable {c : Choice} {l : Listing}

/-- A choice of lists reads the columns of its listing. -/
theorem Lists.columns_eq (h : c.Lists l) : c.columns table = .ok (l.columns table) := by
  unfold Choice.columns Listing.columns
  rw [h.select]
  cases l.select with
  | none => rfl
  | some names =>
      refine congrArg Except.ok ?_
      rw [List.filterMap_map, ← List.filterMap_eq_filter]
      refine List.filterMap_congr fun name _ => ?_
      have hkey : table.fieldOf? (Key.ofValue (.str name)) = table.field? name := rfl
      rw [Function.comp_apply, hkey]
      cases hf : table.field? name with
      | none => simp [Option.guard, hf]
      | some f => simp [Option.guard, hf, (Table.mem_of_field? hf).2]

/-- A choice of lists displays the relations of its listing. -/
theorem Lists.relations_eq (h : c.Lists l) : c.relations table = .ok (l.relations table) := by
  unfold Choice.relations Listing.relations
  rw [h.displayed]
  refine congrArg Except.ok ?_
  rw [List.filterMap_map, ← List.filterMap_eq_filter]
  refine List.filterMap_congr fun name _ => ?_
  have hkey : table.relationOf? (Key.ofValue (.str name)) = table.relation? name := rfl
  rw [Function.comp_apply, hkey]
  cases hr : table.relation? name with
  | none => simp [Option.guard, Table.isRelation, hr]
  | some r => simp [Option.guard, Table.isRelation, hr, (Table.mem_of_relation? hr).2]

/-- **Writes**: the selection of a choice is what its lists write, one after the
other, without what is left out. -/
theorem Lists.selection_eq (h : c.Lists l) :
    c.selection table tables =
      (l.writes table tables).map fun ws => dropAll (putAll [] ws) l.excluded := by
  obtain ⟨ms, hms, hgiven⟩ := h.included
  have hincluded : c.included.members = .ok ms := by
    rw [hms]
    rfl
  have hexcluded : c.excluded.walk = .ok (l.excluded.map Value.str) := by
    rw [h.excluded]
    rfl
  have hbind : ∀ {α β : Type} (a : α) (f : α → Except Error β), (.ok a >>= f) = f a :=
    fun _ _ => rfl
  simp only [Choice.selection, h.columns_eq, h.relations_eq, hincluded, hexcluded, hbind,
    addRelations_eq, addLeaves_eq, Listing.writes]
  cases (l.relations table).mapM (Listing.displayWrite table tables) with
  | error e => rfl
  | ok displayed =>
      simp only [Except.map, hbind, addIncluded_eq hgiven]
      cases l.asked.mapM (Listing.askedWrites table tables) with
      | error e => rfl
      | ok asked =>
          simp only [hbind, dropExcluded_texts]
          refine congrArg (fun spec => Except.ok (dropAll spec l.excluded)) ?_
          rw [putAll_append, putAll_append]

end Choice

/-! ## what is written -/

namespace Listing

/-- What is written under a name for a listing. -/
inductive Writes (l : Listing) (table : Table) (tables : List Table) : Text → Selection → Prop where
  | column {name : Text} (listed : name ∈ l.columns table) : Writes l table tables name .leaf
  | display {name : Text} {r : Relation} {related : Table}
      (listed : name ∈ l.displayed ∨ (name, .display) ∈ l.asked)
      (named : table.relation? name = some r)
      (target : tableNamed? tables r.target = some related) :
      Writes l table tables name (.nested (leaves (displayNames related)))
  | names {name : Text} {ns : List Text} {r : Relation} (listed : (name, .names ns) ∈ l.asked)
      (named : table.relation? name = some r) :
      Writes l table tables name (.nested (addLeaves [] ns))

/-- A relation is written for display with the display columns of the table that it
leads to. -/
theorem displayWrite_eq_ok {name : Text} {w : Write} :
    displayWrite table tables name = .ok w ↔
      ∃ r related, table.relation? name = some r ∧ tableNamed? tables r.target = some related ∧
        w = (name, .nested (leaves (displayNames related))) := by
  have hkey : table.relationOf? (.name name) = table.relation? name := rfl
  unfold displayWrite displaySelection
  rw [hkey]
  cases table.relation? name with
  | none => simp [Except.map]
  | some r =>
      cases htarget : tableNamed? tables r.target with
      | none => simp [Relation.resolve, htarget, Except.map]
      | some related => simp [Relation.resolve, htarget, Except.map, eq_comm]

/-- A relation has a write for display exactly if it leads to a table. -/
theorem exists_displayWrite_iff {name : Text} {r : Relation}
    (named : table.relation? name = some r) :
    (∃ w, displayWrite table tables name = .ok w) ↔
      ∃ related, tableNamed? tables r.target = some related := by
  simp only [displayWrite_eq_ok]
  constructor
  · intro h
    obtain ⟨w, r', related, named', target, _⟩ := h
    cases named.symm.trans named'
    exact ⟨related, target⟩
  · intro h
    obtain ⟨related, target⟩ := h
    exact ⟨_, r, related, named, target, rfl⟩

/-- On consistent tables every relation has a write for display. -/
theorem exists_displayWrite (hc : Consistent tables) (ht : table ∈ tables) {name : Text}
    {r : Relation} (named : table.relation? name = some r) :
    ∃ w, displayWrite table tables name = .ok w := by
  obtain ⟨related, _, target⟩ := hc.resolve ht (Table.mem_of_relation? named).1
  exact (exists_displayWrite_iff named).2 ⟨related, Relation.resolve_eq_ok.1 target⟩

/-- What is asked of a relation is written for display or name by name. -/
theorem mem_askedWrites {a : Text × Wanted} {ws : List Write}
    (h : askedWrites table tables a = .ok ws) {w : Write} :
    w ∈ ws ↔ (a.2 = .display ∧ displayWrite table tables a.1 = .ok w) ∨
      ∃ ns r, a.2 = .names ns ∧ table.relation? a.1 = some r ∧
        w = (a.1, .nested (addLeaves [] ns)) := by
  obtain ⟨name, wanted⟩ := a
  cases hr : table.relation? name with
  | none =>
      simp only [askedWrites, hr, Except.ok.injEq] at h
      simp [← h, hr, displayWrite_eq_ok]
  | some r =>
      cases wanted with
      | nothing =>
          simp only [askedWrites, hr, Except.ok.injEq] at h
          simp [← h]
      | names ns =>
          simp only [askedWrites, hr, Except.ok.injEq] at h
          simp [← h]
      | display =>
          simp only [askedWrites, hr] at h
          cases hw : displayWrite table tables name with
          | error e => simp [hw, Except.map] at h
          | ok w' =>
              simp only [hw, Except.map, Except.ok.injEq] at h
              simp [← h, eq_comm]

/-- What is asked of a relation is written under its name. -/
theorem name_of_mem_askedWrites {a : Text × Wanted} {ws : List Write}
    (h : askedWrites table tables a = .ok ws) {w : Write} (hw : w ∈ ws) : w.1 = a.1 := by
  rcases (mem_askedWrites h).1 hw with ⟨_, hw⟩ | ⟨ns, r, _, _, hw⟩
  · obtain ⟨r, related, _, _, hw⟩ := displayWrite_eq_ok.1 hw
    rw [hw]
  · rw [hw]

/-- What stands in the lists is written, and nothing else is. -/
theorem mem_writes {l : Listing} {ws : List Write} (h : l.writes table tables = .ok ws)
    {w : Write} : w ∈ ws ↔ l.Writes table tables w.1 w.2 := by
  simp only [writes, bind_eq_ok, pure_eq_ok] at h
  obtain ⟨displayed, hdisplayed, asked, hasked, rfl⟩ := h
  have hd : w ∈ displayed ↔ ∃ name ∈ l.relations table, displayWrite table tables name = .ok w :=
    mem_of_mapM_eq_ok hdisplayed
  have ha : w ∈ asked.flatten ↔ ∃ a ∈ l.asked, (a.2 = .display ∧
      displayWrite table tables a.1 = .ok w) ∨ ∃ ns r, a.2 = .names ns ∧
        table.relation? a.1 = some r ∧ w = (a.1, .nested (addLeaves [] ns)) := by
    rw [List.mem_flatten, exists_mem_iff_of_forall₂ (mapM_eq_ok.1 hasked) fun a _ ws hws =>
      mem_askedWrites hws]
  rw [List.mem_append, List.mem_append, hd, ha]
  constructor
  · rintro ((hcolumn | ⟨name, hname, hw⟩) | ⟨⟨name, wanted⟩, hmem, ⟨hwanted, hw⟩ |
      ⟨ns, r, hwanted, hr, rfl⟩⟩)
    · obtain ⟨name, hname, rfl⟩ := List.mem_map.1 hcolumn
      exact .column hname
    · obtain ⟨r, related, hr, htarget, rfl⟩ := displayWrite_eq_ok.1 hw
      exact .display (.inl (List.mem_filter.1 hname).1) hr htarget
    · obtain ⟨r, related, hr, htarget, rfl⟩ := displayWrite_eq_ok.1 hw
      cases hwanted
      exact .display (.inr hmem) hr htarget
    · cases hwanted
      exact .names hmem hr
  · obtain ⟨name, s⟩ := w
    intro h
    cases h with
    | column hname => exact .inl (.inl (List.mem_map.2 ⟨name, hname, rfl⟩))
    | @display r related hname hr htarget =>
        have hw : displayWrite table tables name =
            .ok (name, .nested (leaves (displayNames related))) :=
          displayWrite_eq_ok.2 ⟨r, related, hr, htarget, rfl⟩
        rcases hname with hname | hname
        · have hrelation : table.isRelation name = true := by simp [Table.isRelation, hr]
          exact .inl (.inr ⟨name, List.mem_filter.2 ⟨hname, hrelation⟩, hw⟩)
        · exact .inr ⟨_, hname, .inl ⟨rfl, hw⟩⟩
    | @names ns r hname hr => exact .inr ⟨_, hname, .inr ⟨ns, r, rfl, hr, rfl⟩⟩

/-- What is asked can be written, unless it is the display of a relation that leads
nowhere. -/
theorem exists_askedWrites_iff {name : Text} {wanted : Wanted} :
    (∃ ws, askedWrites table tables (name, wanted) = .ok ws) ↔
      (wanted = .display → ∀ r, table.relation? name = some r →
        ∃ related, tableNamed? tables r.target = some related) := by
  cases hr : table.relation? name with
  | none => simp [askedWrites, hr]
  | some r =>
      cases wanted with
      | nothing => simp [askedWrites, hr]
      | names ns => simp [askedWrites, hr]
      | display =>
          have hwrite : (∃ ws, askedWrites table tables (name, .display) = .ok ws) ↔
              ∃ w, displayWrite table tables name = .ok w := by
            simp only [askedWrites, hr]
            cases displayWrite table tables name <;> simp [Except.map]
          rw [hwrite, exists_displayWrite_iff hr]
          simp

/-- The relations that are to be displayed lead to tables. -/
def Resolves (l : Listing) (table : Table) (tables : List Table) : Prop :=
  ∀ name, name ∈ l.displayed ∨ (name, .display) ∈ l.asked → ∀ r, table.relation? name = some r →
    ∃ related, tableNamed? tables r.target = some related

/-- A listing can be written exactly if what it displays is there. -/
theorem exists_writes_iff {l : Listing} :
    (∃ ws, l.writes table tables = .ok ws) ↔ l.Resolves table tables := by
  have hparts : (∃ ws, l.writes table tables = .ok ws) ↔
      (∃ displayed, (l.relations table).mapM (displayWrite table tables) = .ok displayed) ∧
        ∃ asked, l.asked.mapM (askedWrites table tables) = .ok asked := by
    simp only [writes, bind_eq_ok, pure_eq_ok]
    constructor
    · intro h
      obtain ⟨_, displayed, hdisplayed, asked, hasked, _⟩ := h
      exact ⟨⟨displayed, hdisplayed⟩, asked, hasked⟩
    · intro h
      obtain ⟨⟨displayed, hdisplayed⟩, asked, hasked⟩ := h
      exact ⟨_, displayed, hdisplayed, asked, hasked, rfl⟩
  rw [hparts, exists_mapM_eq_ok, exists_mapM_eq_ok]
  constructor
  · rintro ⟨hdisplayed, hasked⟩ name (listed | listed) r named
    · have hrelation : table.isRelation name = true := by simp [Table.isRelation, named]
      have hwrite := hdisplayed name (List.mem_filter.2 ⟨listed, hrelation⟩)
      exact (exists_displayWrite_iff named).1 hwrite
    · exact exists_askedWrites_iff.1 (hasked _ listed) rfl r named
  · intro h
    constructor
    · intro name hname
      obtain ⟨listed, hrelation⟩ := List.mem_filter.1 hname
      obtain ⟨r, named⟩ := Option.isSome_iff_exists.1 hrelation
      exact (exists_displayWrite_iff named).2 (h name (.inl listed) r named)
    · rintro ⟨name, wanted⟩ listed
      refine exists_askedWrites_iff.2 fun hwanted r named => ?_
      exact h name (.inr (hwanted ▸ listed)) r named

/-- On consistent tables every listing can be written. -/
theorem exists_writes (hc : Consistent tables) (ht : table ∈ tables) (l : Listing) :
    ∃ ws, l.writes table tables = .ok ws := by
  refine exists_writes_iff.2 fun name _ r named => ?_
  obtain ⟨related, _, target⟩ := hc.resolve ht (Table.mem_of_relation? named).1
  exact ⟨related, Relation.resolve_eq_ok.1 target⟩

/-- A list of names that is asked of a relation is the last thing that is
written for the relation, if no relation is asked for twice. -/
theorem flatten_askedWrites {asked : List (Text × Wanted)} {wss : List (List Write)}
    (h : List.Forall₂ (fun a ws => askedWrites table tables a = .ok ws) asked wss)
    (distinct : (Assoc.keys asked).Nodup) {name : Text} {ns : List Text} {r : Relation}
    (listed : (name, .names ns) ∈ asked) (named : table.relation? name = some r) :
    ∃ before after, wss.flatten = before ++ (name, .nested (addLeaves [] ns)) :: after ∧
      ∀ w ∈ after, w.1 ≠ name := by
  induction h with
  | nil => exact absurd listed List.not_mem_nil
  | @cons a ws rest wss hws hrest ih =>
      rw [Assoc.keys_cons, List.nodup_cons] at distinct
      rcases List.mem_cons.1 listed with rfl | listed
      · simp only [askedWrites, named, Except.ok.injEq] at hws
        refine ⟨[], wss.flatten, by rw [← hws]; rfl, fun w hw hname => ?_⟩
        -- A later write to the name would come from a second entry with it.
        obtain ⟨ws', hmem, hw⟩ := List.mem_flatten.1 hw
        have hkey : ∀ ws' ∈ wss, ∀ w ∈ ws', w.1 ∈ Assoc.keys rest := by
          refine forall_mem_of_forall₂ hrest fun a ha ws' hws' w hw => ?_
          rw [name_of_mem_askedWrites hws' hw]
          exact List.mem_map_of_mem ha
        exact distinct.1 (hname ▸ hkey ws' hmem w hw)
      · obtain ⟨before, after, hflatten, hlast⟩ := ih distinct.2 listed
        refine ⟨ws ++ before, after, ?_, hlast⟩
        rw [List.flatten_cons, hflatten, List.append_assoc]

/-- After the names that are asked of a relation nothing else is written under it. -/
theorem names_last {l : Listing} {ws : List Write} (h : l.writes table tables = .ok ws)
    (distinct : (Assoc.keys l.asked).Nodup) {name : Text} {ns : List Text} {r : Relation}
    (listed : (name, .names ns) ∈ l.asked) (named : table.relation? name = some r) :
    ∃ before after, ws = before ++ (name, .nested (addLeaves [] ns)) :: after ∧
      ∀ w ∈ after, w.1 ≠ name := by
  simp only [writes, bind_eq_ok, pure_eq_ok, mapM_eq_ok] at h
  obtain ⟨displayed, _, asked, hasked, rfl⟩ := h
  obtain ⟨before, after, hflatten, hlast⟩ := flatten_askedWrites hasked distinct listed named
  refine ⟨(l.columns table).map (fun name => (name, .leaf)) ++ displayed ++ before, after, ?_,
    hlast⟩
  rw [hflatten, List.append_assoc, List.append_assoc, List.append_assoc]

end Listing

/-! ## the selection of a listing -/

/-- What the selection of a listing on a table is made of. -/
structure Listing.Gives (l : Listing) (table : Table) (tables : List Table) (spec : Spec) :
    Prop where
  /-- Every entry was written and not left out. -/
  written : ∀ e ∈ spec, ∃ name, e.1 = .name name ∧ name ∉ l.excluded ∧
    l.Writes table tables name e.2
  /-- Every name that was written and not left out is there. -/
  keys : ∀ name, .name name ∈ Assoc.keys spec ↔
    name ∉ l.excluded ∧ ∃ s, l.Writes table tables name s
  /-- So is each list of names that is asked of a relation. -/
  names : ∀ name ns r, (name, .names ns) ∈ l.asked → table.relation? name = some r →
    name ∉ l.excluded → (.name name, .nested (addLeaves [] ns)) ∈ spec

namespace Listing

variable {l : Listing} {ws : List Write}

/-- Every entry was written and not left out. -/
theorem written_of_mem (h : l.writes table tables = .ok ws) {e : Key × Selection}
    (he : e ∈ dropAll (putAll [] ws) l.excluded) :
    ∃ name, e.1 = .name name ∧ name ∉ l.excluded ∧ l.Writes table tables name e.2 := by
  obtain ⟨he, hkept⟩ := mem_dropAll.1 he
  obtain ⟨w, hw, rfl⟩ := (mem_of_mem_putAll he).resolve_right List.not_mem_nil
  exact ⟨w.1, rfl, fun hname => hkept w.1 hname rfl, (mem_writes h).1 hw⟩

/-- Every name that was written and not left out is there. -/
theorem mem_keys_iff_writes (h : l.writes table tables = .ok ws) (name : Text) :
    .name name ∈ Assoc.keys (dropAll (putAll [] ws) l.excluded) ↔
      name ∉ l.excluded ∧ ∃ s, l.Writes table tables name s := by
  rw [mem_keys_dropAll, mem_keys_putAll, and_comm]
  refine and_congr_right fun _ => ?_
  constructor
  · rintro (hkey | ⟨w, hw, hkey⟩)
    · exact absurd hkey List.not_mem_nil
    · cases hkey
      exact ⟨w.2, (mem_writes h).1 hw⟩
  · rintro ⟨s, hs⟩
    exact .inr ⟨(name, s), (mem_writes h).2 hs, rfl⟩

/-- What is written and not left out is what a listing gives. -/
theorem gives_of_writes (h : l.writes table tables = .ok ws)
    (distinct : (Assoc.keys l.asked).Nodup) :
    l.Gives table tables (dropAll (putAll [] ws) l.excluded) where
  written _ he := written_of_mem h he
  keys name := mem_keys_iff_writes h name
  names := by
    intro name ns r listed named hkept
    obtain ⟨before, after, rfl, hlast⟩ := names_last h distinct listed named
    refine mem_dropAll.2 ⟨mem_putAll_of_last [] before hlast, fun other hother hname => ?_⟩
    cases hname
    exact hkept hother

end Listing

/-- **Listings**: on consistent tables a choice that is made of lists comes to a
selection, and the lists tell what is in it. -/
theorem Choice.Lists.exists_selection {c : Choice} {l : Listing} (h : c.Lists l)
    (hc : Consistent tables) (ht : table ∈ tables) (distinct : (Assoc.keys l.asked).Nodup) :
    ∃ spec, c.selection table tables = .ok spec ∧ l.Gives table tables spec := by
  obtain ⟨ws, hws⟩ := Listing.exists_writes hc ht l
  exact ⟨_, by rw [h.selection_eq, hws]; rfl, Listing.gives_of_writes hws distinct⟩

end

end GraphDoc
