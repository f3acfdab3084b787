import GraphDoc.Proofs.Service.Status

/-!
# GraphDoc.Proofs.Service.Metadata

What the service tells about a metadata file.

* The entries of a metadata text can be wrong in two ways: a name is none, or a
  value has not the shape in which it is used (`Error.OfEntries`,
  `tablesOfMetadata_entries`); so every rejection of a metadata text has a
  message with bytes (`isEncodable_message_of_tablesOfText`).
* The tables stand in the order of the file (`names_of_tablesOfMetadata`).
* `respond_metadata` compares the routes: they agree on every rejection but
  those of text that is no JSON, which break the listing of the tables off.
-/

namespace GraphDoc

open Text Service

/-! ## what can be wrong with the entries -/

/-- An error about an entry of the metadata: a value of the wrong shape, or one
that is no name. -/
inductive Error.OfEntries : Error → Prop
  | misfit (fault : Misfit) : OfEntries (.misfit fault)
  | name {kind : Text} (hkind : kind.isEncodable = true) (given : Value) :
      OfEntries (.invalidName kind given)

/-- A computation that fails only because of an entry of the metadata. -/
abbrev FailsOnEntries {α : Type} (x : Except Error α) : Prop := Avoids (fun e => ¬ e.OfEntries) x

theorem not_not_ofEntries_misfit (fault : Misfit) : ¬ ¬ Error.OfEntries (.misfit fault) :=
  not_not_intro (.misfit fault)

/-- A kind of name with bytes: the metadata checks no other one. -/
theorem checkName_entries {kind : Text} (hkind : kind.isEncodable = true) (given : Value) :
    FailsOnEntries (checkName kind given) :=
  checkName_avoids (not_not_intro (.name hkind given))

theorem Value.members_entries (v : Value) : FailsOnEntries v.members :=
  members_avoids (not_not_ofEntries_misfit _) v

theorem Value.letters_entries (v : Value) : FailsOnEntries v.letters :=
  letters_avoids (not_not_ofEntries_misfit _) v

theorem Value.walk_entries (v : Value) : FailsOnEntries v.walk :=
  walk_avoids (not_not_ofEntries_misfit _) v

theorem requiredMember_entries (ms : Members) (key : Text) :
    FailsOnEntries (requiredMember ms key) :=
  requiredMember_avoids (not_not_ofEntries_misfit _) ms

/-- Whether a column is composite fails to be told for its entry alone. -/
theorem isComposite_entries (wireType storageType : Value) :
    FailsOnEntries (isComposite wireType storageType) := by
  have hstored : FailsOnEntries (isComposite.stored storageType) :=
    (Value.letters_entries _).bind fun s _ => avoids_ok _
  unfold isComposite
  split
  · split
    · exact avoids_ok true
    · exact hstored
  · exact hstored

/-- A column fails to load for its entry alone. -/
theorem Field.ofMetadata_entries (raw : Value) : FailsOnEntries (Field.ofMetadata raw) := by
  refine (Value.members_entries raw).bind fun ms _ => ?_
  refine (Value.members_entries _).bind fun type _ => ?_
  refine (Value.letters_entries _).bind fun marked _ => ?_
  refine (requiredMember_entries ms "name").bind fun name _ => ?_
  refine (isComposite_entries _ _).bind fun expansion _ => ?_
  refine (checkName_entries rfl name).bind fun _ _ => ?_
  exact (checkName_entries rfl _).bind fun _ _ => avoids_ok _

/-- A relation fails to be made for its entry alone. -/
theorem Relation.make_entries (field target : Value) (kind : RelationKind) :
    FailsOnEntries (Relation.make field target kind) := by
  refine (checkName_entries rfl field).bind fun _ _ => ?_
  exact (checkName_entries rfl target).bind fun _ _ => avoids_ok _

/-- A relation fails to load for its entry alone. -/
theorem Relation.ofMetadata_entries (kind : RelationKind) (endKey : Text) (raw : Value) :
    FailsOnEntries (Relation.ofMetadata kind endKey raw) := by
  unfold Relation.ofMetadata
  split
  · exact avoids_ok none
  · refine (Value.members_entries raw).bind fun ms _ => ?_
    dsimp only
    split
    · exact avoids_ok none
    · split
      · exact avoids_ok none
      · exact (Relation.make_entries _ _ kind).bind fun r _ => avoids_ok (some r)

/-- The relations of a table fail to load for an entry of one of them. -/
theorem relationsOfMetadata_entries (raw : Value) : FailsOnEntries (relationsOfMetadata raw) := by
  refine (Value.members_entries raw).bind fun ms _ => ?_
  refine (Avoids.mapM fun source _ => ?_).bind fun groups _ => avoids_ok _
  refine (Value.walk_entries _).bind fun items _ => ?_
  exact (Avoids.mapM fun item _ => Relation.ofMetadata_entries _ _ item).bind
    fun found _ => avoids_ok _

/-- A table fails to load for an entry in it. -/
theorem Table.ofMetadata_entries (raw : Value) : FailsOnEntries (Table.ofMetadata raw) := by
  refine (Value.members_entries raw).bind fun ms _ => ?_
  refine (relationsOfMetadata_entries _).bind fun relations _ => ?_
  refine (requiredMember_entries ms "name").bind fun name _ => ?_
  refine (Value.walk_entries _).bind fun columns _ => ?_
  refine (Avoids.mapM fun column _ => Field.ofMetadata_entries column).bind fun fields _ => ?_
  exact (checkName_entries rfl name).bind fun _ _ => avoids_ok _

/-- The list of tables fails to be found for the payload alone. -/
theorem tableList_entries (payload : Value) : FailsOnEntries (tableList payload) := by
  unfold tableList
  split
  · split
    · exact (Value.members_entries _).bind fun _ _ => avoids_ok _
    · exact avoids_ok _
  · exact avoids_ok _

/-- A payload fails to load for its entries alone. -/
theorem tablesOfMetadata_entries (payload : Value) : FailsOnEntries (tablesOfMetadata payload) := by
  refine (tableList_entries payload).bind fun list _ => ?_
  refine (Value.walk_entries list).bind fun entries _ => ?_
  exact Avoids.mapM fun raw _ => Table.ofMetadata_entries raw

/-! ## what can be wrong with a text -/

/-- A metadata text is no JSON, or has a wrong entry, or names tables that are
not consistent. -/
theorem tablesOfText_error_cases {text : Text} {e : Error} (h : tablesOfText text = .error e) :
    (∃ fault, e = .json fault) ∨ (∃ found, e = .metadata found) ∨ e.OfEntries := by
  unfold tablesOfText at h
  split at h
  · next fault _ => exact .inl ⟨fault, (Except.error.inj h).symm⟩
  · next payload _ =>
    cases htables : tablesOfMetadata payload with
    | error e' =>
        rw [htables] at h
        cases h
        exact .inr (.inr (not_not.1 (tablesOfMetadata_entries payload e htables)))
    | ok tables =>
        rw [htables] at h
        by_cases hfound : problems tables = []
        · simp [bind, Except.bind, hfound, pure, Except.pure] at h
        · simp only [bind, Except.bind, List.isEmpty_iff, hfound, if_false] at h
          exact .inr (.inl ⟨problems tables, (Except.error.inj h).symm⟩)

theorem Json.isEncodable_problemText (p : Json.Problem) : p.text.isEncodable = true := by
  cases p <;> simp [Json.Problem.text]

/-- What is wrong with JSON can be told. -/
theorem Json.isEncodable_message (e : Json.Error) : e.message.isEncodable = true := by
  unfold Json.Error.message
  split <;> simp [Json.isEncodable_problemText]

/-- The message of a metadata text that is rejected has bytes, whatever the text
holds: values stand in it as literals. -/
theorem isEncodable_message_of_tablesOfText {text : Text} {e : Error}
    (h : tablesOfText text = .error e) (hr : e.isRejection = true) :
    e.message.isEncodable = true := by
  rcases tablesOfText_error_cases h with ⟨fault, rfl⟩ | ⟨found, rfl⟩ | hentries
  · exact Json.isEncodable_message fault
  · simp [Error.message]
  · cases hentries with
    | misfit fault => cases hr
    | name hkind given => simp [Error.message, hkind]

/-! ## the order of the file -/

/-- A table that was loaded has the name that its entry tells. -/
theorem Table.name_of_ofMetadata {raw : Value} {t : Table} (h : Table.ofMetadata raw = .ok t) :
    raw.member? "name" = some (.str t.name) := by
  simp only [Table.ofMetadata, bind_eq_ok] at h
  obtain ⟨ms, hms, _, _, name, hname, _, _, _, _, hmake⟩ := h
  cases raw with
  | obj ms' =>
      cases hms
      obtain ⟨checked, hchecked, ht⟩ := bind_eq_ok.1 hmake
      rw [← pure_eq_ok.1 ht, ← (checkName_eq_ok_iff.1 hchecked).1]
      unfold requiredMember at hname
      split at hname
      · next v hv =>
        cases hname
        exact hv
      · cases hname
  | _ => cases hms

/-- The tables have the names of the entries that count as given, in their
order. -/
theorem names_of_tablesOfMetadata {payload : Value} {tables : List Table}
    (h : tablesOfMetadata payload = .ok tables) :
    ∃ list entries, tableList payload = .ok list ∧ list.walk = .ok entries ∧
      List.Forall₂ (fun raw t => raw.member? "name" = some (.str t.name))
        (entries.filter Value.truthy) tables := by
  simp only [tablesOfMetadata, bind_eq_ok, mapM_eq_ok] at h
  obtain ⟨list, hlist, entries, hentries, htables⟩ := h
  exact ⟨list, entries, hlist, hentries, htables.imp fun _ _ => Table.name_of_ofMetadata⟩

/-- Tables are read from a text as JSON and then as metadata. -/
theorem tablesOfText_eq_ok {text : Text} {tables : List Table}
    (h : tablesOfText text = .ok tables) :
    ∃ payload, Json.parse (unifiedBreaks text) = .ok payload ∧
      tablesOfMetadata payload = .ok tables := by
  unfold tablesOfText at h
  split at h
  · cases h
  · next payload hparse =>
    obtain ⟨tables', htables, h⟩ := bind_eq_ok.1 h
    dsimp only at h
    split at h
    · rw [← pure_eq_ok.1 h]
      exact ⟨payload, hparse, htables⟩
    · exact absurd h throw_ne_ok

namespace Service

/-! ## the routes -/

/-- The response that tells the message of an error. -/
def rejected (e : Error) : HttpResponse := ⟨400, some (.obj [("detail", .str e.message)])⟩

/-- The metadata file whose tables a request asks for. -/
def listedPath (r : HttpRequest) : Text :=
  metadataPath (r.target.query.reverse.lookup ("metadata_path" : Text))

section

variable {files : Files} {path text : Text} {e : Error}

/-- Where the path is sound and the file is there, its text is read. -/
theorem loadTables_eq (files : Files) (requested : Option Text)
    (hpath : pathProblem? path = none) (hfile : files path = .ok text)
    (hrequested : metadataPath requested = path) :
    loadTables files requested = tablesOfText text := by
  simp only [loadTables, hrequested, hpath, hfile]

/-- The route of the tables answers with the tables. -/
theorem respond_get {r : HttpRequest} (hmethod : r.method = "GET")
    (hroute : r.target.path = "/tables") :
    respond files r = tablesResponse files r.target.query := by
  have hfound : findRoute? "/tables" = some .tables := rfl
  unfold respond
  rw [hroute, hfound]
  simp only [hmethod, Route.method, if_true, routeResponse]

/-- Where no tables can be loaded no operation is looked at. -/
theorem documentResponse_of_error {operation : Operation} {b : RequestBody}
    (h : loadTables files b.metadata = .error e) :
    documentResponse files operation b = failure b.metadata e := by
  simp only [documentResponse, h]
  rfl

/-- A text that is rejected is answered as rejected. -/
theorem failure_of_tablesOfText (h : tablesOfText text = .error e) (hr : e.isRejection = true)
    (requested : Option Text) : failure requested e = rejected e := by
  rw [failure_of_rejection hr]
  exact reason_eq (isEncodable_message_of_tablesOfText h hr) 400

/-- Of the errors of a metadata text those of JSON are the ones that the listing
of tables does not provide for. -/
theorem isFileCause_iff (h : tablesOfText text = .error e) :
    isFileCause e = true ↔ ∃ fault, e = .json fault := by
  rcases tablesOfText_error_cases h with ⟨fault, rfl⟩ | ⟨found, rfl⟩ | hentries
  · exact iff_of_true rfl ⟨fault, rfl⟩
  · simp [isFileCause]
  · cases hentries <;> simp [isFileCause]

/-- The names of checked tables can be told. -/
theorem telling_names {tables : List Table} (h : ∀ t ∈ tables, t.Checked) :
    telling 200 (.obj [("tables", .ofTexts (tables.map Table.name))]) =
      ⟨200, some (.obj [("tables", .ofTexts (tables.map Table.name))])⟩ := by
  have hnames : carriedItems ((tables.map Table.name).map Value.str) = true := by
    rw [carriedItems_iff]
    intro v hv
    obtain ⟨name, hname, rfl⟩ := List.mem_map.1 hv
    obtain ⟨t, ht, rfl⟩ := List.mem_map.1 hname
    rw [carried_str]
    exact (h t ht).isEncodable_name
  have hbody : carried (.obj [("tables", .ofTexts (tables.map Table.name))]) = true := by
    simp only [Value.ofTexts, carried_obj, carried_arr, carriedMembers, hnames,
      isEncodable_ofString, Bool.and_self]
  have hlist : itemLayers ((tables.map Table.name).map Value.str) ≤ 1 := by simp [itemLayers_le]
  have hlayers : layers (.obj [("tables", .ofTexts (tables.map Table.name))]) ≤ maxLayers := by
    simp only [Value.ofTexts, layers_obj, layers_arr, memberLayers, maxLayers]
    omega
  exact telling_eq hbody hlayers 200

end

/-- **Metadata over two routes**: on a readable file a rejected metadata text is
answered with 400 and the message by every request for a document; by the
listing of tables it is answered so exactly if the text is JSON, and otherwise
the listing is broken off.  The names of accepted tables are listed in the order
of the file. -/
theorem respond_metadata (files : Files) (get : HttpRequest) {path text : Text}
    (hpath : pathProblem? path = none) (hfile : files path = .ok text)
    (hmethod : get.method = "GET") (hroute : get.target.path = "/tables")
    (hlisted : listedPath get = path) :
    (∀ e, tablesOfText text = .error e → e.isRejection = true →
      (∀ (operation : Operation) (post : HttpRequest) (b : RequestBody), post.method = "POST" →
        post.target.path = documentPath operation → readText post.body = .ok b →
          metadataPath b.metadata = path → respond files post = rejected e) ∧
      (respond files get = rejected e ↔ ∀ fault, e ≠ .json fault) ∧
      (respond files get = brokenOff ↔ ∃ fault, e = .json fault)) ∧
    ∀ tables, tablesOfText text = .ok tables →
      respond files get = ⟨200, some (.obj [("tables", .ofTexts (tables.map Table.name))])⟩ ∧
      ∃ payload list entries, Json.parse (unifiedBreaks text) = .ok payload ∧
        tableList payload = .ok list ∧ list.walk = .ok entries ∧
        List.Forall₂ (fun raw t => raw.member? "name" = some (.str t.name))
          (entries.filter Value.truthy) tables := by
  have hload := loadTables_eq files _ hpath hfile hlisted
  rw [respond_get hmethod hroute]
  refine ⟨fun e he hr => ⟨fun operation post b hpost hto hbody hfrom => ?_, ?_⟩, fun tables h => ?_⟩
  · rw [respond_post hpost hto hbody,
      documentResponse_of_error ((loadTables_eq files _ hpath hfile hfrom).trans he)]
    exact failure_of_tablesOfText he hr b.metadata
  · have hanswer : tablesResponse files get.target.query =
        if isFileCause e then brokenOff else rejected e := by
      simp only [tablesResponse, hload, he, failure_of_tablesOfText he hr]
    have hdistinct : brokenOff ≠ rejected e := fun h => by cases h
    rw [hanswer]
    by_cases hjson : ∃ fault, e = .json fault
    · rw [if_pos ((isFileCause_iff he).2 hjson)]
      exact ⟨iff_of_false hdistinct fun h => h _ hjson.choose_spec, iff_of_true rfl hjson⟩
    · rw [if_neg (mt (isFileCause_iff he).1 hjson)]
      exact ⟨iff_of_true rfl (not_exists.1 hjson), iff_of_false hdistinct.symm hjson⟩
  · obtain ⟨payload, hparse, htables⟩ := tablesOfText_eq_ok h
    obtain ⟨list, entries, hlist, hwalk, horder⟩ := names_of_tablesOfMetadata htables
    refine ⟨?_, payload, list, entries, hparse, hlist, hwalk, horder⟩
    simp only [tablesResponse, hload, h]
    exact telling_names (checked_of_tablesOfMetadata htables)

/-! ## a file that breaks off -/

/-- Every file opens an object and says no more. -/
def BrokenOff.files : Files := fun _ => .ok "\x7b"

/-- What is wrong with that. -/
def BrokenOff.error : Error := .json ⟨⟨.expectingName, 1⟩, 1, 2⟩

/-- A request for the names of the tables in the file that is read by
default. -/
def BrokenOff.get : HttpRequest := ⟨"GET", ⟨"/tables", []⟩, none⟩

theorem BrokenOff.tablesOfText_files : tablesOfText "\x7b" = .error BrokenOff.error := rfl

/-- The same file is answered with a reason on one route and breaks the other
one off; a file that is in order is listed. -/
theorem respond_metadata_of_break :
    respond BrokenOff.files (Shop.post "/count") = rejected BrokenOff.error ∧
    respond BrokenOff.files BrokenOff.get = brokenOff ∧
    respond Shop.files BrokenOff.get =
      ⟨200, some (.obj [("tables", .ofTexts ["Product"])])⟩ := by
  have hpath : pathProblem? defaultMetadataPath = none := rfl
  obtain ⟨hrejected, _⟩ := respond_metadata BrokenOff.files BrokenOff.get hpath rfl rfl rfl rfl
  obtain ⟨hpost, _, hget⟩ := hrejected BrokenOff.error BrokenOff.tablesOfText_files rfl
  obtain ⟨_, hlisted⟩ := respond_metadata Shop.files BrokenOff.get hpath rfl rfl rfl rfl
  have hload := loadTables_eq Shop.files none hpath rfl rfl
  have htables := hload.symm.trans Shop.loadTables_files
  exact ⟨hpost .count (Shop.post "/count") Shop.read rfl rfl Shop.readText_body rfl,
    hget.2 ⟨_, rfl⟩, (hlisted [Shop.product] htables).1⟩

/-- The listing of tables does not answer every rejected metadata text as the
requests for documents do. -/
theorem not_respond_metadata_alike :
    ¬ ∀ (files : Files) (path text : Text) (get : HttpRequest), pathProblem? path = none →
      files path = .ok text → get.method = "GET" → get.target.path = "/tables" →
        listedPath get = path → ∀ e, tablesOfText text = .error e → e.isRejection = true →
          respond files get = rejected e := by
  intro h
  have hget := h BrokenOff.files defaultMetadataPath "\x7b" BrokenOff.get rfl rfl rfl rfl rfl
    BrokenOff.error BrokenOff.tablesOfText_files rfl
  have hload : loadTables BrokenOff.files none = .error BrokenOff.error := rfl
  have hbroken : respond BrokenOff.files BrokenOff.get = brokenOff := by
    rw [respond_get rfl rfl]
    simp only [tablesResponse, BrokenOff.get, List.reverse_nil, List.lookup_nil, hload]
    rfl
  rw [hbroken] at hget
  cases hget

end Service

end GraphDoc
