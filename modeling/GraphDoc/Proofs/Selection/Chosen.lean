import GraphDoc.Proofs.Selection.Display

/-!
# GraphDoc.Proofs.Selection.Chosen

The selection of a choice, entry by entry and in order.

The lists of a choice write to one selection, one list after the other.  A name
keeps the place at which it was first written, whatever is written to it later
(`keys_putAll`), and leaving names out moves none of the others
(`keys_dropAll`).  So the names stand in the order of the lists
(`Listing.order`).  What stands under a name is told by rules that know nothing
of writing (`Listing.Chooses`): a column stands for itself, and a list of names
that is asked of a relation goes before its columns for display.
`choiceSelection_in_order` puts order and rules together.
-/

namespace GraphDoc

/-! ## the order of writes -/

section

variable {spec : Spec}

theorem has_name_iff {name : Text} :
    Assoc.has spec (Key.name name) = true ↔ .name name ∈ Assoc.keys spec := by
  rw [Assoc.has, List.any_eq_true, Assoc.keys, List.mem_map]
  exact exists_congr fun e => and_congr_right fun _ => Key.beq_name_iff

/-- Names stand in the order in which they were first written. -/
theorem keys_putAll (writes : List Write) :
    Assoc.keys (putAll [] writes) = (writes.map Prod.fst).eraseDups.map Key.name := by
  induction writes using List.reverseRecOn with
  | nil => rfl
  | append_singleton writes w ih =>
      have hput : putAll [] (writes ++ [w]) =
          Assoc.put (putAll [] writes) (.name w.1) w.2 := putAll_append [] writes [w]
      have hthere : Assoc.has (putAll [] writes) (Key.name w.1) = true ↔
          w.1 ∈ writes.map Prod.fst := by
        rw [has_name_iff, ih, List.mem_map_of_injective fun _ _ => Key.name.inj, List.mem_eraseDups]
      rw [hput, List.map_append, List.map_singleton, eraseDups_concat]
      split
      · next hmem => rw [Assoc.keys_put_of_has _ _ _ (hthere.2 hmem), ih]
      · next hnew =>
        have hnot := Bool.eq_false_iff.2 (mt hthere.1 hnew)
        rw [Assoc.keys_put_of_not_has _ _ _ hnot, ih, List.map_append]
        rfl

/-- Leaving names out keeps the order of the others. -/
theorem keys_dropAll {names : List Text} (h : Assoc.keys spec = names.map Key.name)
    (excluded : List Text) :
    Assoc.keys (dropAll spec excluded) =
      (names.filter fun name => !excluded.contains name).map Key.name := by
  induction excluded generalizing spec names with
  | nil => simpa [dropAll] using h
  | cons name rest ih =>
      have hcons : dropAll spec (name :: rest) = dropAll (Assoc.drop spec (.name name)) rest := rfl
      have hdrop : Assoc.keys (Assoc.drop spec (Key.name name)) =
          (names.filter (· != name)).map Key.name := by
        have hkeys : Assoc.keys (Assoc.drop spec (Key.name name)) =
            (Assoc.keys spec).filter fun key => !(key == Key.name name) := by
          rw [Assoc.keys, Assoc.keys, Assoc.drop, List.filter_map]
          rfl
        rw [hkeys, h, List.filter_map]
        rfl
      rw [hcons, ih hdrop, List.filter_filter]
      refine congrArg (List.map Key.name) (List.filter_congr fun other _ => ?_)
      rw [Bool.eq_iff_iff]
      simp [and_comm]

/-- Among distinct keys each has one selection. -/
theorem eq_of_mem_of_nodup_keys (distinct : (Assoc.keys spec).Nodup) {key : Key} {s s' : Selection}
    (h : (key, s) ∈ spec) (h' : (key, s') ∈ spec) : s = s' :=
  (Prod.mk.inj (List.inj_on_of_nodup_map distinct h h' rfl)).2

/-- A list of names reads each of them once, where it first stands. -/
theorem addLeaves_nil (names : List Text) : addLeaves [] names = leaves names.eraseDups := by
  have hkeys : Assoc.keys (addLeaves [] names) = names.eraseDups.map Key.name := by
    rw [addLeaves_eq, keys_putAll, List.map_map]
    exact congrArg (fun ns : List Text => ns.eraseDups.map Key.name) (List.map_id names)
  have hleaf : ∀ e ∈ addLeaves [] names, (e.1, Selection.leaf) = e := by
    intro e he
    obtain ⟨name, _, rfl⟩ := mem_addLeaves_nil.1 he
    rfl
  have hvalues : (Assoc.keys (addLeaves [] names)).map (fun key => (key, Selection.leaf)) =
      addLeaves [] names := by
    rw [Assoc.keys, List.map_map]
    exact (List.map_congr_left hleaf).trans (List.map_id _)
  rw [← hvalues, hkeys, List.map_map]
  rfl

end

/-! ## the order of a listing -/

/-- Whether something is asked. -/
def Wanted.asks : Wanted → Bool
  | nothing => false
  | display => true
  | names _ => true

namespace Listing

variable {table : Table} {tables : List Table} {l : Listing}

/-- The relations of which something is asked. -/
def followed (l : Listing) (table : Table) : List Text :=
  (l.asked.filter fun a => a.2.asks && table.isRelation a.1).map Prod.fst

/-- The names of the selection of a listing: those that are there, list by list,
each where it first stands and unless it is left out. -/
def order (l : Listing) (table : Table) : List Text :=
  (l.columns table ++ l.relations table ++ l.followed table).eraseDups.filter
    fun name => !l.excluded.contains name

/-- What is asked of a relation is written under its name, if it asks for something. -/
theorem map_fst_askedWrites {a : Text × Wanted} {ws : List Write}
    (h : askedWrites table tables a = .ok ws) :
    ws.map Prod.fst = if a.2.asks && table.isRelation a.1 then [a.1] else [] := by
  obtain ⟨name, wanted⟩ := a
  cases hr : table.relation? name with
  | none =>
      simp only [askedWrites, hr, Except.ok.injEq] at h
      simp [← h, Table.isRelation, hr]
  | some r =>
      cases wanted with
      | nothing =>
          simp only [askedWrites, hr, Except.ok.injEq] at h
          simp [← h, Wanted.asks]
      | names ns =>
          simp only [askedWrites, hr, Except.ok.injEq] at h
          simp [← h, Wanted.asks, Table.isRelation, hr]
      | display =>
          simp only [askedWrites, hr] at h
          cases hw : displayWrite table tables name with
          | error e => simp [hw, Except.map] at h
          | ok w =>
              obtain ⟨r', related, _, _, rfl⟩ := displayWrite_eq_ok.1 hw
              simp only [hw, Except.map, Except.ok.injEq] at h
              simp [← h, Wanted.asks, Table.isRelation, hr]

/-- What is asked is written under the names of the relations that ask for something, in
order. -/
theorem map_fst_flatten_askedWrites {asked : List (Text × Wanted)} {wss : List (List Write)}
    (h : List.Forall₂ (fun a ws => askedWrites table tables a = .ok ws) asked wss) :
    wss.flatten.map Prod.fst =
      (asked.filter fun a => a.2.asks && table.isRelation a.1).map Prod.fst := by
  induction h with
  | nil => rfl
  | @cons a ws asked wss hws _ ih =>
      rw [List.flatten_cons, List.map_append, map_fst_askedWrites hws, ih, List.filter_cons]
      split <;> rfl

/-- The columns are written first, and what is written to relations behind them
is never a name alone. -/
theorem exists_relationWrites {ws : List Write} (h : l.writes table tables = .ok ws) :
    ∃ behind, ws = (l.columns table).map (fun name => (name, .leaf)) ++ behind ∧
      behind.map Prod.fst = l.relations table ++ l.followed table ∧
      ∀ w ∈ behind, w.2 ≠ .leaf := by
  simp only [writes, bind_eq_ok, pure_eq_ok, mapM_eq_ok] at h
  obtain ⟨displayed, hdisplayed, asked, hasked, rfl⟩ := h
  have hnested : ∀ name w, displayWrite table tables name = .ok w → w.1 = name ∧ w.2 ≠ .leaf := by
    intro name w hw
    obtain ⟨r, related, _, _, rfl⟩ := displayWrite_eq_ok.1 hw
    exact ⟨rfl, by simp⟩
  have hrelations : displayed.map Prod.fst = (l.relations table).map id :=
    map_eq_map_of_forall₂ hdisplayed fun name w hw => (hnested name w hw).1
  refine ⟨displayed ++ asked.flatten, List.append_assoc _ _ _, ?_, fun w hw => ?_⟩
  · rw [List.map_append, hrelations, List.map_id, map_fst_flatten_askedWrites hasked]
    rfl
  · rcases List.mem_append.1 hw with hw | hw
    · exact forall_mem_of_forall₂ hdisplayed (fun name _ w hw => (hnested name w hw).2) w hw
    · have heach : ∀ ws ∈ asked, ∀ w ∈ ws, Prod.snd w ≠ Selection.leaf := by
        refine forall_mem_of_forall₂ hasked fun a _ ws hws w hw => ?_
        rcases (mem_askedWrites hws).1 hw with ⟨_, hw⟩ | ⟨ns, r, _, _, rfl⟩
        · exact (hnested a.1 w hw).2
        · simp
      obtain ⟨ws, hws, hw⟩ := List.mem_flatten.1 hw
      exact heach ws hws w hw

/-- The names of the selection stand in the order of the lists. -/
theorem keys_of_writes {ws : List Write} (h : l.writes table tables = .ok ws) :
    Assoc.keys (dropAll (putAll [] ws) l.excluded) = (l.order table).map Key.name := by
  have hkeys : Assoc.keys (putAll [] ws) =
      (l.columns table ++ l.relations table ++ l.followed table).eraseDups.map Key.name := by
    obtain ⟨behind, rfl, hbehind, _⟩ := exists_relationWrites h
    have hcolumns : ((l.columns table).map fun name => (name, Selection.leaf)).map Prod.fst =
        l.columns table := by
      rw [List.map_map]
      exact List.map_id _
    rw [keys_putAll, List.map_append, hcolumns, hbehind, List.append_assoc]
  exact keys_dropAll hkeys l.excluded

/-- No name stands twice in the order of a listing. -/
theorem nodup_order : ((l.order table).map Key.name).Nodup :=
  ((nodup_eraseDups _).filter _).map fun _ _ => Key.name.inj

/-! ## what stands under a name -/

/-- What a listing selects under a name, on a table without shadowed columns. -/
inductive Chooses (l : Listing) (table : Table) (tables : List Table) :
    Text → Selection → Prop where
  /-- A column that is named, or any column if none is named, for itself. -/
  | column {name : Text} (listed : name ∈ l.select.getD (table.fields.map Field.name))
      (there : (table.field? name).isSome = true) : Chooses l table tables name .leaf
  /-- A relation with the names that are asked of it, each once. -/
  | names {name : Text} {ns : List Text} (listed : (name, .names ns) ∈ l.asked)
      (there : table.isRelation name = true) :
      Chooses l table tables name (.nested (leaves ns.eraseDups))
  /-- A relation with its columns for display, if no names are asked of it. -/
  | display {name : Text} {inner : Spec} (listed : name ∈ l.displayed ∨ (name, .display) ∈ l.asked)
      (unlisted : ∀ ns, (name, .names ns) ∉ l.asked)
      (shown : displaySelection table tables (.name name) = .ok inner) :
      Chooses l table tables name (.nested inner)

/-- A listing asks to read a relation. -/
def AsksFor (l : Listing) (name : Text) : Prop :=
  name ∈ l.displayed ∨ ∃ wanted, (name, wanted) ∈ l.asked ∧ wanted ≠ .nothing

/-- Without shadowed columns all columns are plain. -/
theorem mem_columns_iff_of_unshadowed
    (unshadowed : ∀ f ∈ table.fields, table.isRelation f.name = false) {name : Text} :
    name ∈ l.columns table ↔
      name ∈ l.select.getD (table.fields.map Field.name) ∧ (table.field? name).isSome = true := by
  have hplain : table.plainNames = table.fields.map Field.name := by
    have hall : table.plainFields = table.fields :=
      List.filter_eq_self.2 fun f hf => by rw [unshadowed f hf]; rfl
    rw [Table.plainNames, hall]
  rw [mem_columns_iff, hplain]

/-- Displaying a relation selects the display columns of the table that it leads to. -/
theorem displaySelection_eq_ok {name : Text} {inner : Spec} :
    displaySelection table tables (.name name) = .ok inner ↔
      ∃ r related, table.relation? name = some r ∧ tableNamed? tables r.target = some related ∧
        inner = leaves (displayNames related) := by
  have hwrite : displayWrite table tables name = .ok (name, .nested inner) ↔
      displaySelection table tables (.name name) = .ok inner := by
    rw [displayWrite]
    cases displaySelection table tables (.name name) <;> simp [Except.map]
  rw [← hwrite, displayWrite_eq_ok]
  simp

namespace Chooses

variable {name : Text} {s s' : Selection}

/-- What is chosen is written. -/
theorem exists_writes (unshadowed : ∀ f ∈ table.fields, table.isRelation f.name = false)
    (h : l.Chooses table tables name s) : ∃ s', l.Writes table tables name s' := by
  cases h with
  | column listed there =>
      exact ⟨_, .column ((mem_columns_iff_of_unshadowed unshadowed).2 ⟨listed, there⟩)⟩
  | names listed there =>
      obtain ⟨r, named⟩ := Option.isSome_iff_exists.1 there
      exact ⟨_, .names listed named⟩
  | display listed _ shown =>
      obtain ⟨r, related, named, target, _⟩ := displaySelection_eq_ok.1 shown
      exact ⟨_, .display listed named target⟩

/-- A selection is only chosen behind a relation. -/
theorem isRelation {inner : Spec} (h : l.Chooses table tables name (.nested inner)) :
    table.isRelation name = true := by
  cases h with
  | names _ there => exact there
  | display _ _ shown =>
      obtain ⟨r, _, named, _⟩ := displaySelection_eq_ok.1 shown
      rw [Table.isRelation, named]
      rfl

/-- One thing is chosen under a name. -/
theorem unique (unshadowed : ∀ f ∈ table.fields, table.isRelation f.name = false)
    (distinct : (Assoc.keys l.asked).Nodup) (h : l.Chooses table tables name s)
    (h' : l.Chooses table tables name s') : s = s' := by
  have hcolumn : (table.field? name).isSome = true → table.isRelation name = false := by
    intro hthere
    obtain ⟨f, hf, rfl⟩ := Table.isSome_field?_iff.1 hthere
    exact unshadowed f hf
  cases h with
  | column _ there =>
      cases h' with
      | column => rfl
      | names listed hrelation => exact absurd hrelation (by simp [hcolumn there])
      | display listed unlisted shown =>
          have hrelation := (Chooses.display listed unlisted shown).isRelation
          exact absurd hrelation (by simp [hcolumn there])
  | @names ns listed hrelation =>
      cases h' with
      | column _ there => exact absurd hrelation (by simp [hcolumn there])
      | @names ns' listed' =>
          cases List.inj_on_of_nodup_map distinct listed listed' rfl
          rfl
      | display _ unlisted => exact absurd listed (unlisted ns)
  | display listed unlisted shown =>
      have hrelation := (Chooses.display listed unlisted shown).isRelation
      cases h' with
      | column _ there => exact absurd hrelation (by simp [hcolumn there])
      | @names ns listed' => exact absurd listed' (unlisted ns)
      | display _ _ shown' => rw [ok_unique shown shown']

end Chooses

/-- What a listing gives is what it chooses. -/
theorem Gives.mem_iff_chooses {spec : Spec} (hg : l.Gives table tables spec)
    (hnodup : (Assoc.keys spec).Nodup)
    (unshadowed : ∀ f ∈ table.fields, table.isRelation f.name = false)
    (distinct : (Assoc.keys l.asked).Nodup) {name : Text} {s : Selection} :
    (.name name, s) ∈ spec ↔ name ∉ l.excluded ∧ l.Chooses table tables name s := by
  have hsound : ∀ s, (.name name, s) ∈ spec →
      name ∉ l.excluded ∧ l.Chooses table tables name s := by
    intro s he
    obtain ⟨other, hname, hkept, hwritten⟩ := hg.written _ he
    cases hname
    refine ⟨hkept, ?_⟩
    dsimp only at hwritten
    cases hwritten with
    | column listed =>
        obtain ⟨listed, there⟩ := (mem_columns_iff_of_unshadowed unshadowed).1 listed
        exact .column listed there
    | @names ns r listed named =>
        rw [addLeaves_nil]
        exact .names listed (by rw [Table.isRelation, named]; rfl)
    | @display r related listed named target =>
        by_cases hlist : ∃ ns, (name, .names ns) ∈ l.asked
        · -- The list of names was written later and stands in the selection instead.
          obtain ⟨ns, hns⟩ := hlist
          have hlater := hg.names name ns r hns named hkept
          rw [eq_of_mem_of_nodup_keys hnodup he hlater, addLeaves_nil]
          exact .names hns (by rw [Table.isRelation, named]; rfl)
        · rw [not_exists] at hlist
          exact .display listed hlist (displaySelection_eq_ok.2 ⟨r, related, named, target, rfl⟩)
  refine ⟨hsound s, fun h => ?_⟩
  obtain ⟨hkept, hchosen⟩ := h
  obtain ⟨s', he⟩ := GraphDoc.mem_keys_iff.1
    ((hg.keys name).2 ⟨hkept, hchosen.exists_writes unshadowed⟩)
  rwa [hchosen.unique unshadowed distinct (hsound s' he).2]

/-- Each relation that is asked for is chosen with a selection of its own. -/
theorem AsksFor.exists_chooses (hc : Consistent tables) (ht : table ∈ tables) {name : Text}
    (hrelation : table.isRelation name = true) (h : l.AsksFor name) :
    ∃ inner, l.Chooses table tables name (.nested inner) := by
  obtain ⟨r, named⟩ := Option.isSome_iff_exists.1 hrelation
  obtain ⟨related, _, target⟩ := hc.resolve ht (Table.mem_of_relation? named).1
  by_cases hlist : ∃ ns, (name, .names ns) ∈ l.asked
  · obtain ⟨ns, hns⟩ := hlist
    exact ⟨_, .names hns hrelation⟩
  · rw [not_exists] at hlist
    have hlisted : name ∈ l.displayed ∨ (name, .display) ∈ l.asked := by
      refine h.imp_right fun hasked => ?_
      obtain ⟨wanted, hmem, hwanted⟩ := hasked
      cases wanted with
      | nothing => exact absurd rfl hwanted
      | display => exact hmem
      | names ns => exact absurd hmem (hlist ns)
    have hshown := displaySelection_eq named (Relation.resolve_eq_ok.1 target)
    exact ⟨_, .display hlisted hlist hshown⟩

end Listing

/-! ## choices in order -/

/-- **Choices in order**: on consistent tables a choice of lists of names on a
table without shadowed columns comes to a selection.  Its names are those that the
lists name and the table has, list by list, each where it first stands and unless
it is left out.  Under each of them stands what the listing chooses there, and
each relation that is asked for is chosen with a selection of its own. -/
theorem choiceSelection_in_order {tables : List Table} {table : Table} {ms : Members} {l : Listing}
    (hproblems : problems tables = []) (ht : table ∈ tables)
    (unshadowed : ∀ f ∈ table.fields, table.isRelation f.name = false)
    (hlists : (Choice.ofMembers ms).Lists l) (distinct : (Assoc.keys l.asked).Nodup) :
    ∃ spec, choiceSelection table tables (.obj ms) = .ok spec ∧
      Assoc.keys spec = (l.order table).map Key.name ∧
      (∀ name s, (.name name, s) ∈ spec ↔
        name ∉ l.excluded ∧ l.Chooses table tables name s) ∧
      ∀ name, table.isRelation name = true → l.AsksFor name →
        ∃ inner, l.Chooses table tables name (.nested inner) := by
  have hc : Consistent tables := problems_eq_nil_iff.1 hproblems
  obtain ⟨ws, hws⟩ := Listing.exists_writes hc ht l
  have hkeys := Listing.keys_of_writes hws
  have hnodup : (Assoc.keys (dropAll (putAll [] ws) l.excluded)).Nodup := by
    rw [hkeys]
    exact Listing.nodup_order
  have hgives := Listing.gives_of_writes hws distinct
  refine ⟨dropAll (putAll [] ws) l.excluded, ?_, hkeys, fun name s => ?_, fun name => ?_⟩
  · exact hlists.selection_eq.trans (by rw [hws]; rfl)
  · exact hgives.mem_iff_chooses hnodup unshadowed distinct
  · exact fun hrelation hasked => hasked.exists_chooses hc ht hrelation

/-! ## books, their authors and their loans -/

namespace Shelf

def book : Table where
  name := "Book"
  fields := [
    { name := "id", wireType := "UUID", nullable := false },
    { name := "title", wireType := "String" },
    { name := "isbn", wireType := "String" }]
  relations := {
    belongsTo := [⟨"author", .belongsTo, "Author"⟩]
    hasMany := [⟨"loans", .hasMany, "Loan"⟩] }

def author : Table where
  name := "Author"
  fields := [
    { name := "name", wireType := "String" },
    { name := "id", wireType := "UUID", nullable := false }]

def loan : Table where
  name := "Loan"
  fields := [{ name := "id", wireType := "UUID", nullable := false },
    { name := "due", wireType := "Date" }]

def tables : List Table := [book, author, loan]

/-- A choice that names columns twice and in vain, asks for `loans` in two ways,
and leaves a column out that it names. -/
def choice : Members := [
  ("select", .ofTexts ["title", "isbn", "cover", "title", "id"]),
  ("include", .obj [("loans", .ofTexts ["due", "id", "due"]), ("author", .bool false)]),
  ("includeRelations", .ofTexts ["author", "loans"]),
  ("exclude", .ofTexts ["isbn"])]

def listing : Listing where
  select := some ["title", "isbn", "cover", "title", "id"]
  asked := [("loans", .names ["due", "id", "due"]), ("author", .nothing)]
  displayed := ["author", "loans"]
  excluded := ["isbn"]

end Shelf

/-- The choice of a shelf: columns in the order in which they are named first, then
relations, without what is left out. -/
theorem choiceSelection_in_order_shelf :
    choiceSelection Shelf.book Shelf.tables (.obj Shelf.choice) =
        .ok [(.name "title", .leaf), (.name "id", .leaf),
          (.name "author", .nested (leaves ["id", "name"])),
          (.name "loans", .nested (leaves ["due", "id"]))] ∧
      Shelf.listing.Chooses Shelf.book Shelf.tables "loans" (.nested (leaves ["due", "id"])) := by
  have hvalue : choiceSelection Shelf.book Shelf.tables (.obj Shelf.choice) =
      .ok [(.name "title", .leaf), (.name "id", .leaf),
        (.name "author", .nested (leaves ["id", "name"])),
        (.name "loans", .nested (leaves ["due", "id"]))] := rfl
  have hlists : (Choice.ofMembers Shelf.choice).Lists Shelf.listing := by
    refine ⟨rfl, ⟨_, rfl, .cons ⟨rfl, rfl⟩ (.cons ⟨rfl, ?_⟩ .nil)⟩, rfl, rfl⟩
    simp [Wanted.GivenAs]
  have hproblems : problems Shelf.tables = [] := by decide
  obtain ⟨spec, hspec, _, hchosen, _⟩ := choiceSelection_in_order hproblems List.mem_cons_self
    (by decide) hlists (by decide)
  refine ⟨hvalue, ((hchosen "loans" _).1 ?_).2⟩
  cases ok_unique hspec hvalue
  simp

end GraphDoc
