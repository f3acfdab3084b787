import GraphDoc.Proofs.Document.Shape
import GraphDoc.Proofs.Document.Siblings
import GraphDoc.Proofs.Expansion.Growth
import GraphDoc.Schema.Metadata

/-!
# GraphDoc.Proofs.Schema.Columns

Columns as metadata declares them, and what a query requests of them.

An entry of the metadata declares a name, a type on the wire and a type in the
storage (`Declaration`).  Loading keeps the entries one by one and in order
(`declared_of_ofMetadata`), and the declaration alone decides what is requested
of a column of its own:

* `fieldNode_of_wire`: a type that is composite on the wire is requested with its
  parts;
* `fieldNode_of_plain`: a type that is composite nowhere is requested by name;
* `fieldNode_of_bare`: a type that is composite in the storage alone has no parts
  to ask for, and the column cannot be requested.

`rowsQuery_of_ofMetadata` puts them together for a table without a selection.
-/

namespace GraphDoc

/-! ## declarations -/

/-- What metadata declares of a column: its name, its type on the wire, and its
type in the storage. -/
structure Declaration where
  name : Text
  wireType : Text
  storage : Text
  deriving DecidableEq, Repr

/-- The text under a key; `fallback` where no text is there, or an empty one. -/
def Value.told (v : Value) (key fallback : Text) : Text :=
  match v.member? key with
  | some (.str t) => if t.isEmpty then fallback else t
  | _ => fallback

/-- A name finds a composite type exactly if it is the name of one. -/
theorem WireType.isSome_ofText?_iff {name : Text} :
    (ofText? name).isSome = true ↔ ∃ type : WireType, Text.ofString type.text = name := by
  constructor
  · intro h
    obtain ⟨type, htype⟩ := Option.isSome_iff_exists.1 h
    exact ⟨type, text_of_ofText? htype⟩
  · intro h
    obtain ⟨type, rfl⟩ := h
    simp [ofText?_text]

namespace Declaration

/-- The declaration of an entry. -/
def ofEntry (entry : Value) : Declaration :=
  let type := Value.ofOption (entry.member? "type")
  { name := entry.told "name" []
    wireType := withoutMarks (type.told "gqlType" "String")
    storage := type.told "pgType" [] }

/-- The declarations of a table, in order; an entry that does not count as given
declares nothing. -/
def ofTable (raw : Value) : List Declaration :=
  match raw.member? "fields" with
  | some (.arr entries) => (entries.filter Value.truthy).map ofEntry
  | _ => []

/-- The type on the wire is a composite one. -/
def OnWire (d : Declaration) : Prop := ∃ type : WireType, Text.ofString type.text = d.wireType

/-- The type in the storage is a composite one, in any case of letters. -/
def InStorage (d : Declaration) : Prop :=
  Text.lower d.storage ∈ (["geometry", "geography", "interval"] : List Text)

/-- A column that is composite in the storage but has no composite type on the
wire, so that nothing tells which parts to ask for. -/
def Bare (d : Declaration) : Prop := d.InStorage ∧ ¬ d.OnWire

instance (d : Declaration) : Decidable d.OnWire :=
  decidable_of_iff ((WireType.ofText? d.wireType).isSome = true) WireType.isSome_ofText?_iff

instance (d : Declaration) : Decidable d.Bare :=
  inferInstanceAs (Decidable (Text.lower d.storage ∈ (_ : List Text) ∧ ¬ d.OnWire))

/-- A column is what was declared. -/
structure Declares (d : Declaration) (f : Field) : Prop where
  name : f.name = d.name
  wireType : f.wireType = d.wireType
  composite : f.composite = true ↔ d.OnWire ∨ d.InStorage

/-- The declarations of the columns that no relation of a table shadows. -/
def plain (raw : Value) (t : Table) : List Declaration :=
  (ofTable raw).filter fun d => !t.isRelation d.name

end Declaration

/-! ## loading keeps the declarations -/

section

variable {v raw : Value} {ms : Members}

/-- Only an object has members. -/
theorem Value.eq_obj_of_members (h : v.members = .ok ms) : v = .obj ms := by
  cases v with
  | obj ms' => simpa [Value.members] using h
  | _ => simp [Value.members] at h

/-- The members of an object that may be left out. -/
theorem Value.member?_of_members_orElse (h : (v.orElse (.obj [])).members = .ok ms) (key : Text) :
    v.member? key = ms.lookup key := by
  by_cases ht : v.truthy = true
  · rw [Value.orElse, if_pos ht] at h
    rw [Value.eq_obj_of_members h, Value.member?]
  · rw [Value.orElse, if_neg ht] at h
    have hnil : ms = [] := by simpa [Value.members] using h.symm
    subst hnil
    cases v with
    | obj ms' =>
        have hms : ms' = [] := by simpa [Value.truthy] using ht
        rw [hms, Value.member?]
    | _ => simp [Value.member?]

/-- The letters under a key are the text that is told there. -/
theorem Value.told_of_letters {key fallback t : Text}
    (h : ((Value.ofOption (v.member? key)).orElse (.str fallback)).letters = .ok t) :
    v.told key fallback = t := by
  unfold Value.told
  cases hm : v.member? key with
  | none => simpa [hm, Value.ofOption, Value.orElse, Value.truthy, Value.letters] using h
  | some w =>
      rw [hm] at h
      by_cases ht : w.truthy = true
      · simp only [Value.ofOption, Option.getD_some, Value.orElse, ht, if_true] at h
        cases w with
        | str u =>
            have hu : u.isEmpty = false := by simpa [Value.truthy] using ht
            simpa [hu, Value.letters] using h
        | _ => simp [Value.letters] at h
      · simp only [Value.ofOption, Option.getD_some, Value.orElse, ht] at h
        have hfallback : fallback = t := by simpa [Value.letters] using h
        cases w with
        | str u =>
            have hu : u.isEmpty = true := by simpa [Value.truthy] using ht
            simp [hu, hfallback]
        | _ => exact hfallback

/-- A column is composite by its type on the wire or by its type in the
storage. -/
theorem isComposite_eq_ok {wireType : Text} {type : Value} {composite : Bool}
    (h : isComposite (.str wireType) (Value.ofOption (type.member? "pgType")) = .ok composite) :
    composite = true ↔ (∃ w : WireType, Text.ofString w.text = wireType) ∨
      compositeStorageTypes.contains (Text.lower (type.told "pgType" [])) = true := by
  rw [← WireType.isSome_ofText?_iff]
  by_cases hwire : (WireType.ofText? wireType).isSome = true
  · have htrue : composite = true := by simpa [isComposite, hwire] using h.symm
    simp [htrue, hwire]
  · rw [isComposite, if_neg hwire, isComposite.stored] at h
    obtain ⟨storage, hstorage, hin⟩ := bind_eq_ok.1 h
    have htold : type.told "pgType" [] = storage := Value.told_of_letters hstorage
    rw [htold, pure_eq_ok.1 hin]
    simp [hwire]

/-- Loading a column keeps what its entry declares. -/
theorem declares_of_ofMetadata {f : Field} (h : Field.ofMetadata raw = .ok f) :
    (Declaration.ofEntry raw).Declares f := by
  simp only [Field.ofMetadata, bind_eq_ok, Field.make, pure_eq_ok] at h
  obtain ⟨ms, hms, type, htype, marked, hmarked, name, hname, composite, hcomposite,
    checked, hchecked, wire, hwire, rfl⟩ := h
  have hraw : raw = .obj ms := Value.eq_obj_of_members hms
  have hmembers : ∀ key, (Value.ofOption (raw.member? "type")).member? key = type.lookup key := by
    rw [hraw]
    exact Value.member?_of_members_orElse htype
  have hmarked : (Value.ofOption (raw.member? "type")).told "gqlType" "String" = marked := by
    apply Value.told_of_letters
    rw [hmembers]
    exact hmarked
  have hwire : wire = withoutMarks marked := by
    have hgiven := (checkName_eq_ok_iff.1 hwire).1
    simpa using hgiven.symm
  have hname : raw.told "name" [] = checked := by
    obtain ⟨rfl, haccepted⟩ := checkName_eq_ok_iff.1 hchecked
    have hlookup : ms.lookup ("name" : Text) = some (.str checked) := by
      unfold requiredMember at hname
      split at hname <;> simp_all
    have hne : checked.isEmpty = false := by
      cases checked with
      | nil => simp [Name.accepted, Name.withoutFinalBreak, Name.valid] at haccepted
      | cons c rest => rfl
    simp [Value.told, hraw, Value.member?, hlookup, hne]
  have hcomposite : isComposite (.str (withoutMarks marked))
      (Value.ofOption ((Value.ofOption (raw.member? "type")).member? "pgType")) =
        .ok composite := by
    rw [hmembers]
    exact hcomposite
  constructor
  · exact hname.symm
  · rw [Declaration.ofEntry, hmarked, hwire]
  · rw [isComposite_eq_ok hcomposite, List.contains_iff_mem, ← hmarked]
    rfl

/-- Where all items that count as given are objects, they are the items of a
list. -/
theorem filter_truthy_of_listed {key : Text} {columns : List Value}
    (h : listed ms key = .ok columns)
    (hobj : ∀ c ∈ columns, c.truthy = true → ∃ inner, c = .obj inner) :
    columns.filter Value.truthy =
      match ms.lookup key with
      | some (.arr entries) => entries.filter Value.truthy
      | _ => [] := by
  -- The items of a text or of an object are texts, so none of them counts.
  have hnone : ∀ texts : List Text, columns = texts.map Value.str →
      columns.filter Value.truthy = [] := by
    intro texts htexts
    rw [List.filter_eq_nil_iff]
    intro c hc ht
    obtain ⟨inner, hinner⟩ := hobj c hc ht
    rw [htexts] at hc
    obtain ⟨text, _, htext⟩ := List.mem_map.1 hc
    rw [hinner] at htext
    cases htext
  rw [listed, optionalMember] at h
  cases hm : ms.lookup key with
  | none =>
      have hnil : columns = [] := by
        simpa [hm, Value.ofOption, Value.orElse, Value.truthy, Value.walk] using h.symm
      simp [hnil]
  | some v =>
      rw [hm, Value.ofOption, Option.getD_some, Value.orElse] at h
      by_cases ht : v.truthy = true
      · rw [if_pos ht] at h
        cases v with
        | arr entries => simp [Except.ok.inj h]
        | str t =>
            have htexts : columns = (t.map fun c => [c]).map Value.str := by
              rw [List.map_map]
              exact (Except.ok.inj h).symm
            exact hnone _ htexts
        | obj inner =>
            have htexts : columns = (inner.map Prod.fst).map Value.str := by
              rw [List.map_map]
              exact (Except.ok.inj h).symm
            exact hnone _ htexts
        | _ => simp [Value.walk] at h
      · rw [if_neg ht] at h
        have hnil : columns = [] := (Except.ok.inj h).symm
        cases v with
        | arr entries =>
            have hentries : entries = [] := by simpa [Value.truthy] using ht
            simp [hnil, hentries]
        | _ => simp [hnil]

/-- Loading a table keeps what its entries declare, one column for each. -/
theorem declared_of_ofMetadata {t : Table} (h : Table.ofMetadata raw = .ok t) :
    List.Forall₂ Declaration.Declares (Declaration.ofTable raw) t.fields := by
  simp only [Table.ofMetadata, Table.make, bind_eq_ok, pure_eq_ok] at h
  obtain ⟨ms, hms, _, _, _, _, columns, hcolumns, fields, hfields, _, _, rfl⟩ := h
  have hraw : raw = .obj ms := Value.eq_obj_of_members hms
  have hloaded := mapM_eq_ok.1 hfields
  have hobj : ∀ c ∈ columns, c.truthy = true → ∃ inner, c = .obj inner := by
    intro c hc ht
    obtain ⟨f, hf⟩ := exists_mapM_eq_ok.1 ⟨fields, hfields⟩ c (List.mem_filter.2 ⟨hc, ht⟩)
    obtain ⟨inner, hinner, _⟩ := bind_eq_ok.1 hf
    exact ⟨inner, Value.eq_obj_of_members hinner⟩
  have hentries : Declaration.ofTable raw =
      (columns.filter Value.truthy).map Declaration.ofEntry := by
    rw [filter_truthy_of_listed hcolumns hobj, Declaration.ofTable, hraw, Value.member?]
    split <;> rfl
  rw [hentries, List.forall₂_map_left_iff]
  exact hloaded.imp fun _ _ hf => declares_of_ofMetadata hf

/-- A column is shadowed under the name that is declared for it. -/
theorem declared_plainFields {t : Table} {ds : List Declaration} {fs : List Field}
    (h : List.Forall₂ Declaration.Declares ds fs) :
    List.Forall₂ Declaration.Declares (ds.filter fun d => !t.isRelation d.name)
      (fs.filter fun f => !t.isRelation f.name) := by
  induction h with
  | nil => exact .nil
  | @cons d f ds fs hd _ ih =>
      rw [List.filter_cons, List.filter_cons, ← hd.name]
      by_cases hplain : (!t.isRelation f.name) = true
      · rw [if_pos hplain, if_pos hplain]
        exact .cons hd ih
      · rw [if_neg hplain, if_neg hplain]
        exact ih

end

/-! ## what is requested of a column -/

/-- How a column is requested: under its name, and with parts exactly if it was
declared with a composite type on the wire. -/
structure Declaration.RequestedAs (d : Declaration) (n : Node) : Prop where
  name : n.name = d.name
  parts : n.children ≠ [] ↔ d.OnWire
  plain : ¬ d.OnWire → n = .plain d.name

section

variable {d : Declaration} {f : Field}

/-- The standard registry has every composite type. -/
theorem Registry.mem_types_standard (type : WireType) : type ∈ Registry.standard.types := by
  cases type <;> decide

/-- The standard registry knows parts of every composite type. -/
theorem Registry.exists_parts_standard (h : d.OnWire) :
    ∃ parts, Registry.standard.find? d.wireType = some parts ∧ parts ≠ [] := by
  obtain ⟨type, htype⟩ := h
  have hmem : d.wireType ∈ Registry.standard.types.map fun t => Text.ofString t.text :=
    List.mem_map.2 ⟨type, Registry.mem_types_standard type, htype⟩
  obtain ⟨parts, hparts⟩ := Registry.find?_isSome_iff.2 hmem
  obtain ⟨_, hentry⟩ := Registry.mem_entries_of_find? hparts
  exact ⟨parts, hparts, (Registry.tidy_standard _ hentry).1⟩

/-- The standard registry has parts for composite types only. -/
theorem Registry.find?_standard_of_not_onWire (h : ¬ d.OnWire) :
    Registry.standard.find? d.wireType = none := by
  have hnone : WireType.ofText? d.wireType = none := by
    have hsome := mt WireType.isSome_ofText?_iff.1 h
    simpa using hsome
  rw [Registry.find?, hnone, Option.bind_none]

/-- A column with a composite type on the wire is requested with its parts. -/
theorem Declaration.Declares.fieldNode_of_wire (h : d.Declares f) (hwire : d.OnWire)
    (table : Text) :
    ∃ n, fieldNode .standard table f = .ok n ∧ d.RequestedAs n := by
  have hcomposite : f.composite = true := h.composite.2 (.inl hwire)
  obtain ⟨parts, hparts, hne⟩ := Registry.exists_parts_standard hwire
  refine ⟨expansionNode f.name parts, ?_, h.name, ?_, fun hnot => absurd hwire hnot⟩
  · simp [fieldNode, fieldRequest, hcomposite, h.wireType, hparts, Except.map, FieldRequest.node]
  · simp [expansionNode, Node.children, hne, hwire]

/-- A column that is composite nowhere is requested by its name. -/
theorem Declaration.Declares.fieldNode_of_plain (h : d.Declares f) (hwire : ¬ d.OnWire)
    (hstorage : ¬ d.InStorage) (table : Text) :
    ∃ n, fieldNode .standard table f = .ok n ∧ d.RequestedAs n := by
  have hcomposite : f.composite = false := by
    have hnot := mt h.composite.1 (not_or.2 ⟨hwire, hstorage⟩)
    simpa using hnot
  refine ⟨.plain f.name, ?_, h.name, ?_, fun _ => by rw [h.name]⟩
  · simp [fieldNode, fieldRequest, hcomposite, Except.map, FieldRequest.node]
  · simp [Node.plain, Node.children, hwire]

/-- A column that is composite in the storage alone cannot be requested. -/
theorem Declaration.Declares.fieldNode_of_bare (h : d.Declares f) (hbare : d.Bare) (table : Text) :
    fieldNode .standard table f = .error (.unsupportedType table d.name d.wireType) := by
  have hcomposite : f.composite = true := h.composite.2 (.inr hbare.1)
  have hnone := Registry.find?_standard_of_not_onWire hbare.2
  simp [fieldNode, fieldRequest, hcomposite, h.wireType, h.name, hnone, Except.map]

/-- A column is requested as it was declared, unless it is composite in the storage
alone. -/
theorem Declaration.Declares.fieldNode_of_not_bare (h : d.Declares f) (hbare : ¬ d.Bare)
    (table : Text) : ∃ n, fieldNode .standard table f = .ok n ∧ d.RequestedAs n := by
  by_cases hwire : d.OnWire
  · exact h.fieldNode_of_wire hwire table
  · have hstorage : ¬ d.InStorage := fun hin => hbare ⟨hin, hwire⟩
    exact h.fieldNode_of_plain hwire hstorage table

/-- Only a column that is composite in the storage alone cannot be requested. -/
theorem Declaration.Declares.exists_fieldNode_iff (h : d.Declares f) (table : Text) :
    (∃ n, fieldNode .standard table f = .ok n) ↔ ¬ d.Bare := by
  constructor
  · intro hfound hbare
    obtain ⟨n, hn⟩ := hfound
    rw [h.fieldNode_of_bare hbare table] at hn
    cases hn
  · intro hbare
    obtain ⟨n, hn, _⟩ := h.fieldNode_of_not_bare hbare table
    exact ⟨n, hn⟩

end

/-! ## what is requested of a table -/

section

variable {table : Table} {ds : List Declaration} {fs : List Field} {rows : List Node}

/-- Columns that are found one by one are requested as they were declared. -/
theorem requested_of_declared (hd : List.Forall₂ Declaration.Declares ds fs)
    (hn : List.Forall₂ (fun f n => fieldNode .standard table.name f = .ok n) fs rows) :
    List.Forall₂ Declaration.RequestedAs ds rows := by
  induction hd generalizing rows with
  | nil =>
      cases hn
      exact .nil
  | @cons d f ds fs hdf _ ih =>
      cases hn with
      | cons hfound hrest =>
          have hbare : ¬ d.Bare := (hdf.exists_fieldNode_iff table.name).1 ⟨_, hfound⟩
          obtain ⟨n, hn, hrequested⟩ := hdf.fieldNode_of_not_bare hbare table.name
          rw [ok_unique hfound hn]
          exact .cons hrequested (ih hrest)

/-- The first column that is declared bare is the one that is blamed. -/
theorem error_of_declared (hd : List.Forall₂ Declaration.Declares ds fs) {e : Error}
    (he : fs.mapM (fieldNode .standard table.name) = .error e) :
    ∃ before d after, ds = before ++ d :: after ∧ (∀ b ∈ before, ¬ b.Bare) ∧ d.Bare ∧
      e = .unsupportedType table.name d.name d.wireType := by
  have hmeets : Meets (· = e) (fs.mapM (fieldNode .standard table.name)) := ⟨e, he, rfl⟩
  obtain ⟨done, f, rest, rfl, hdone, e', he', rfl⟩ := meets_mapM.1 hmeets
  -- The declarations split where the columns do.
  have hbefore := List.forall₂_take_append ds done (f :: rest) hd
  have hbehind := List.forall₂_drop_append ds done (f :: rest) hd
  obtain ⟨d, after, hdf, _, hdrop⟩ := List.forall₂_cons_right_iff.1 hbehind
  have hbare : d.Bare := by
    by_contra hbare
    obtain ⟨n, hn, _⟩ := hdf.fieldNode_of_not_bare hbare table.name
    rw [he'] at hn
    cases hn
  refine ⟨ds.take done.length, d, after, ?_, ?_, hbare, ?_⟩
  · rw [← hdrop, List.take_append_drop]
  · exact (forall_mem_iff_of_forall₂ hbefore fun b _ g hbg =>
      hbg.exists_fieldNode_iff table.name).1 hdone
  · rw [hdf.fieldNode_of_bare hbare table.name] at he'
    exact (Except.error.inj he').symm

/-- Without options a query holds the fields of its selection and nothing else. -/
theorem rowsQuery_without_options {registry : Registry} {tables : List Table}
    {spec : Option Spec} :
    rowsQuery registry tables table spec {} =
      (selectionNodes registry tables false table spec).map fun rows =>
        ⟨boundDocument .query (Naming.plural table.name ++ "Query") (Naming.plural table.name) []
          [.plain "totalCount", .branch "nodes" [] rows], []⟩ := by
  have hcheck : ({} : RowOptions).check = .ok () := rfl
  have hbindings : rowBindings table {} = .ok [] := rfl
  simp only [rowsQuery, hcheck, hbindings, operationDocument_eq]
  cases selectionNodes registry tables false table spec <;> rfl

end

/-- **Declared columns**: a table from metadata can be queried without a selection
exactly if it has columns that no relation shadows and none of them is declared
bare.  Each of them is then requested once, in the order of the metadata, and
with parts exactly if its type on the wire is composite.  Otherwise the first bare
column is blamed, or there is no column to ask for. -/
theorem rowsQuery_of_ofMetadata {raw : Value} {t : Table} (h : Table.ofMetadata raw = .ok t) :
    ((∃ c, rowsQuery .standard [t] t none {} = .ok c) ↔
      Declaration.plain raw t ≠ [] ∧ ∀ d ∈ Declaration.plain raw t, ¬ d.Bare) ∧
    (∀ c, rowsQuery .standard [t] t none {} = .ok c → ∃ rows,
      c.document.root.children = [.plain "totalCount", .branch "nodes" [] rows] ∧
      List.Forall₂ Declaration.RequestedAs (Declaration.plain raw t) rows) ∧
    ∀ e, rowsQuery .standard [t] t none {} = .error e →
      (Declaration.plain raw t = [] ∧ e = .selection (.empty t.name)) ∨
      ∃ before d after, Declaration.plain raw t = before ++ d :: after ∧
        (∀ b ∈ before, ¬ b.Bare) ∧ d.Bare ∧ e = .unsupportedType t.name d.name d.wireType := by
  have hd : List.Forall₂ Declaration.Declares (Declaration.plain raw t) t.plainFields :=
    declared_plainFields (declared_of_ofMetadata h)
  have hnil : Declaration.plain raw t = [] ↔ t.plainFields = [] := by
    rw [← List.length_eq_zero_iff, hd.length_eq, List.length_eq_zero_iff]
  have hrows : (∃ rows, selectionNodes .standard [t] false t none = .ok rows) ↔
      Declaration.plain raw t ≠ [] ∧ ∀ d ∈ Declaration.plain raw t, ¬ d.Bare := by
    rw [selectionNodes_none, exists_nonempty_mapM_iff, ne_eq, ne_eq, hnil]
    have hbare := forall_mem_iff_of_forall₂ hd fun d _ f hdf => hdf.exists_fieldNode_iff t.name
    rw [hbare]
  rw [rowsQuery_without_options]
  refine ⟨?_, fun c hc => ?_, fun e he => ?_⟩
  · rw [← hrows]
    cases selectionNodes .standard [t] false t none <;> simp [Except.map]
  · cases hnodes : selectionNodes .standard [t] false t none with
    | error e => simp [hnodes, Except.map] at hc
    | ok rows =>
        rw [hnodes] at hc
        have hc := Except.ok.inj hc
        rw [selectionNodes_none, nonempty_mapM_eq_ok] at hnodes
        exact ⟨rows, by rw [← hc]; rfl, requested_of_declared hd hnodes.2⟩
  · cases hnodes : selectionNodes .standard [t] false t none with
    | ok rows => simp [hnodes, Except.map] at he
    | error e' =>
        rw [hnodes] at he
        obtain rfl : e' = e := Except.error.inj he
        rw [selectionNodes_none] at hnodes
        cases hfields : t.plainFields.mapM (fieldNode .standard t.name) with
        | error e'' =>
            rw [hfields] at hnodes
            obtain rfl : e'' = e' := Except.error.inj hnodes
            exact .inr (error_of_declared hd hfields)
        | ok rows =>
            have hempty : nonemptyNodes t rows = .error e' := by rwa [hfields] at hnodes
            unfold nonemptyNodes at hempty
            split at hempty
            · next hrows =>
              rw [List.isEmpty_iff.1 hrows, mapM_eq_ok, List.forall₂_nil_right_iff] at hfields
              exact .inl ⟨hnil.2 hfields, (Except.error.inj hempty).symm⟩
            · cases hempty

namespace Site

/-- The entry of a column: its name, its type on the wire and in the storage. -/
def column (name wireType storage : Text) : Value :=
  .obj [("name", .str name),
    ("type", .obj [("gqlType", .str wireType), ("pgType", .str storage)])]

/-- The entry of a site, with its columns and one more that the relation `outline`
shadows. -/
def entry (columns : List Value) : Value :=
  .obj [("name", .str "Site"),
    ("fields", .arr (column "outline" "JSON" "GEOMETRY" :: columns)),
    ("relations", .obj [("belongsTo", .arr [
      .obj [("fieldName", .str "outline"), ("references", .obj [("name", .str "Outline")])]])])]

/-- A column of a site once it is loaded. -/
def field (name wireType : Text) (nullable composite : Bool) : Field :=
  { name, wireType, nullable, composite }

/-- The site once it is loaded. -/
def table (fields : List Field) : Table where
  name := "Site"
  fields := field "outline" "JSON" true true :: fields
  relations := { belongsTo := [⟨"outline", .belongsTo, "Outline"⟩] }

end Site

/-- A place on the globe is requested with its parts; an area of which only the
storage knows that it is one cannot be requested. -/
theorem rowsQuery_of_ofMetadata_site :
    (Table.ofMetadata (Site.entry [Site.column "pin" "GeographyPoint!" "geography"]) =
        .ok (Site.table [Site.field "pin" "GeographyPoint" false true]) ∧
      ∃ c, rowsQuery .standard [Site.table [Site.field "pin" "GeographyPoint" false true]]
        (Site.table [Site.field "pin" "GeographyPoint" false true]) none {} = .ok c) ∧
    (Table.ofMetadata (Site.entry [Site.column "area" "JSON" "Geography"]) =
        .ok (Site.table [Site.field "area" "JSON" true true]) ∧
      ¬ ∃ c, rowsQuery .standard [Site.table [Site.field "area" "JSON" true true]]
        (Site.table [Site.field "area" "JSON" true true]) none {} = .ok c) := by
  have hpin : Table.ofMetadata (Site.entry [Site.column "pin" "GeographyPoint!" "geography"]) =
      .ok (Site.table [Site.field "pin" "GeographyPoint" false true]) := rfl
  have harea : Table.ofMetadata (Site.entry [Site.column "area" "JSON" "Geography"]) =
      .ok (Site.table [Site.field "area" "JSON" true true]) := rfl
  obtain ⟨hqueried, _⟩ := rowsQuery_of_ofMetadata hpin
  obtain ⟨hblamed, _⟩ := rowsQuery_of_ofMetadata harea
  refine ⟨⟨hpin, hqueried.2 (by decide)⟩, harea, fun hfound => ?_⟩
  have hbare : ∃ d ∈ Declaration.plain (Site.entry [Site.column "area" "JSON" "Geography"])
      (Site.table [Site.field "area" "JSON" true true]), d.Bare := by decide
  obtain ⟨d, hd, hbare⟩ := hbare
  exact (hblamed.1 hfound).2 d hd hbare

end GraphDoc
