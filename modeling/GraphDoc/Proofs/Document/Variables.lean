import GraphDoc.Proofs.Document.Shape
import GraphDoc.Proofs.Selection.Typing
import GraphDoc.Proofs.Value.Members
import Mathlib.Data.List.Nodup

/-!
# GraphDoc.Proofs.Document.Variables

The variables of a document: which it declares, where it takes them, and which
values come with them.

The options of a query that stand for variables are listed in order, each with
its value if it is set (`RowOptions.slots`).  The variables that a query
declares, the arguments of its root and the values that come with it are the
same list of them.  A request for one row and a mutation declare one variable,
which has a value unless the document is a template.
-/

namespace GraphDoc

/-! ## declared and taken -/

/-- A document declares variables, and its root takes each by its name. -/
structure BoundDocument.Declares (c : BoundDocument) (definitions : List VariableDefinition) :
    Prop where
  declared : c.document.definitions = definitions
  taken : c.document.root.arguments = definitions.map fun d => ⟨d.name, .var d.name⟩

/-- The document of an operation declares the variables that it is given. -/
theorem declares_boundDocument {kind : OperationKind} {name root : Text}
    {definitions : List VariableDefinition} {nodes : List Node} {values : Members} :
    BoundDocument.Declares ⟨boundDocument kind name root definitions nodes, values⟩ definitions :=
  ⟨rfl, rfl⟩

/-- A mutation declares its input and nothing else. -/
theorem declares_mutationDocument {action inputType : Text} {table : Table}
    {payload : List Node} {values : Members} :
    BoundDocument.Declares ⟨mutationDocument action inputType table payload, values⟩
      [⟨"input", .nonNull (.named inputType)⟩] := by
  rw [mutationDocument_eq]
  exact declares_boundDocument

/-! ## options as variables -/

/-- A variable, with its value if the option behind it is set. -/
abbrev Slot := VariableDefinition × Option Value

/-- The value of an option that is set. -/
def valueIf (set : Bool) (v : Value) : Option Value := if set then some v else none

/-- The options of a query that stand for variables, in order.  A count or a
cursor is set if it is there at all, a filter if it counts as given, and an
order if it has entries, which the backend takes as the words `order`. -/
def RowOptions.slots (o : RowOptions) (table : Table) (order : List Value) : List Slot := [
  (⟨"first", .named "Int"⟩, valueIf (!o.limit.isNull) o.limit),
  (⟨"offset", .named "Int"⟩, valueIf (!o.offset.isNull) o.offset),
  (⟨"after", .named "Cursor"⟩, valueIf (!o.after.isNull) o.after),
  (⟨"before", .named "Cursor"⟩, valueIf (!o.before.isNull) o.before),
  (⟨"filter", .named (Naming.typeName table.name ++ "Filter")⟩, valueIf o.filter.truthy o.filter),
  (⟨"orderBy", .nonNull (.list (.nonNull (.named (Naming.orderByType table.name))))⟩,
    valueIf (!o.order.isEmpty) (.arr order))]

/-- The variables of the slots that are set, with their values. -/
def setSlots (slots : List Slot) : List (VariableDefinition × Value) :=
  slots.filterMap fun s => s.2.map fun v => (s.1, v)

/-- A slot whose name stands once is among those that are set exactly if it has a
value. -/
theorem name_mem_setSlots_iff {slots : List Slot} (hnames : (slots.map fun s => s.1.name).Nodup)
    {s : Slot} (hs : s ∈ slots) :
    s.1.name ∈ (setSlots slots).map (fun e => e.1.name) ↔ s.2.isSome = true := by
  constructor
  · intro h
    obtain ⟨e, he, hname⟩ := List.mem_map.1 h
    obtain ⟨s', hs', hset⟩ := List.mem_filterMap.1 he
    obtain ⟨v, hv, rfl⟩ := Option.map_eq_some_iff.1 hset
    obtain rfl : s' = s := List.inj_on_of_nodup_map hnames hs' hs hname
    rw [hv]
    rfl
  · intro h
    obtain ⟨v, hv⟩ := Option.isSome_iff_exists.1 h
    refine List.mem_map.2 ⟨(s.1, v), List.mem_filterMap.2 ⟨s, hs, ?_⟩, rfl⟩
    rw [hv]
    rfl

/-- The names of the slots that are set are some of the names of the slots, in order. -/
theorem sublist_name_setSlots (slots : List Slot) :
    ((setSlots slots).map fun e => e.1.name).Sublist (slots.map fun s => s.1.name) := by
  induction slots with
  | nil => exact .slnil
  | cons s rest ih =>
      obtain ⟨definition, value⟩ := s
      cases value with
      | none => exact ih.cons _
      | some v => exact ih.cons_cons _

/-- A slot whose name stands once is found with its value. -/
theorem lookup_setSlots {slots : List Slot} (hnames : (slots.map fun s => s.1.name).Nodup)
    {s : Slot} (hs : s ∈ slots) :
    ((setSlots slots).map fun e => (e.1.name, e.2)).lookup s.1.name = s.2 := by
  have hkeys : Assoc.keys ((setSlots slots).map fun e => (e.1.name, e.2)) =
      (setSlots slots).map fun e => e.1.name := by
    rw [Assoc.keys, List.map_map]
    rfl
  cases hv : s.2 with
  | none =>
      rw [lookup_eq_none_iff, hkeys, name_mem_setSlots_iff hnames hs, hv]
      exact Bool.false_ne_true
  | some v =>
      have hset : (s.1, v) ∈ setSlots slots := List.mem_filterMap.2 ⟨s, hs, by rw [hv]; rfl⟩
      rw [lookup_eq_some_iff_mem (by rw [hkeys]; exact (sublist_name_setSlots slots).nodup hnames)]
      exact List.mem_map.2 ⟨(s.1, v), hset, rfl⟩

/-- The variables of a query have different names. -/
theorem RowOptions.nodup_slots (o : RowOptions) (table : Table) (order : List Value) :
    ((o.slots table order).map fun s => s.1.name).Nodup := by
  have hnames : ((o.slots table order).map fun s => s.1.name) =
      ["first", "offset", "after", "before", "filter", "orderBy"] := rfl
  rw [hnames]
  decide

/-- A binding as a variable with its value. -/
def Binding.entry (b : Binding) : VariableDefinition × Value := (b.definition, b.value)

/-- A slot is filled exactly if it is set. -/
theorem isSome_valueIf (set : Bool) (v : Value) : (valueIf set v).isSome = set := by
  cases set <;> rfl

/-- What the first slot holds comes before what the others hold. -/
theorem setSlots_cons (name : Text) (type : TypeRef) (set : Bool) (v : Value) (rest : List Slot) :
    setSlots ((⟨name, type⟩, valueIf set v) :: rest) =
      (optionBinding set name type v).map Binding.entry ++ setSlots rest := by
  cases set <;> rfl

/-- The bindings of a query are its slots that are set. -/
theorem map_entry_rowBindings {table : Table} {o : RowOptions} {bindings : List Binding}
    (h : rowBindings table o = .ok bindings) :
    ∃ order, o.orderWords = .ok order ∧
      bindings.map Binding.entry = setSlots (o.slots table order) := by
  simp only [rowBindings, bind_eq_ok, pure_eq_ok] at h
  obtain ⟨order, horder, hb⟩ := h
  have hnone : setSlots [] = [] := rfl
  refine ⟨order, horder, ?_⟩
  rw [← hb]
  simp only [RowOptions.slots, setSlots_cons, hnone, List.map_append, List.append_assoc,
    List.append_nil]
  rfl

/-! ## what a check of options leaves -/

/-- Options that pass their check never ask for rows from a place and from a
cursor at once. -/
theorem RowOptions.offset_isNull_of_check {o : RowOptions} (h : o.check = .ok ())
    (hcursor : o.byCursor = true) : o.offset.isNull = true := by
  unfold RowOptions.check at h
  cases hoffset : o.offset.isNull with
  | true => rfl
  | false => simp [hoffset, hcursor] at h

/-- A connection tells of its page exactly if it is to. -/
theorem pageInfo_mem_connectionNodes {pageInfo : Bool} {rows : List Node} :
    ("pageInfo" : Text) ∈ (connectionNodes pageInfo rows).map Node.name ↔ pageInfo = true := by
  rw [map_name_connectionNodes]
  cases pageInfo <;> decide

/-! ## the entries of an input -/

/-- The members that an input takes over from a value: its entries, each under
the text of its key. -/
def Value.entries (v : Value) : Except Error Members :=
  v.bag.map (List.map fun e => (e.1.text, e.2))

/-- An object is taken over as it is. -/
theorem Value.entries_obj (ms : Members) : (Value.obj ms).entries = .ok ms := by
  rw [Value.entries, Value.bag, Except.map, List.map_map]
  exact congrArg Except.ok (List.map_id'' (fun _ => rfl) ms)

/-- The values that are written are the entries of the object. -/
theorem entries_of_writtenMembers {table : Table} {values : Value} {ms : Members}
    (h : writtenMembers table values = .ok ms) : values.entries = .ok ms := by
  simp only [writtenMembers, bind_eq_ok, pure_eq_ok] at h
  obtain ⟨_, _, _, _, entries, hentries, hms⟩ := h
  rw [Value.entries, hentries, ← hms]
  rfl

/-- Only plain fields can be written. -/
theorem checkWritable_eq_ok {table : Table} {name : Text} {u : Unit} :
    checkWritable table (.str name) = .ok u ↔ name ∈ table.plainNames := by
  have hkey : (Value.str name).toKey = .ok (.name name) := rfl
  simp only [checkWritable, hkey, bind_eq_ok, Except.ok.injEq, exists_eq_left']
  by_cases hname : name ∈ table.plainNames <;> simp [hname, pure, Except.pure]

/-- An object can be written where each of its names can. -/
theorem exists_writtenMembers_iff {table : Table} {ms : Members} :
    (∃ written, writtenMembers table (.obj ms) = .ok written) ↔
      ∀ key ∈ Assoc.keys ms, key ∈ table.plainNames := by
  have hwalk : (Value.obj ms).walk = .ok (ms.map fun m => .str m.1) := rfl
  have hbag : (Value.obj ms).bag = .ok (ms.map fun m => (.name m.1, m.2)) := rfl
  have hchecks : (∃ done, (ms.map fun m => Value.str m.1).mapM (checkWritable table) = .ok done) ↔
      ∀ key ∈ Assoc.keys ms, key ∈ table.plainNames := by
    rw [exists_mapM_eq_ok, List.forall_mem_map, Assoc.keys, List.forall_mem_map]
    simp only [checkWritable_eq_ok, exists_const]
  simp only [writtenMembers, hwalk, hbag, bind_eq_ok, pure_eq_ok, Except.ok.injEq,
    exists_eq_left', ← hchecks]
  constructor
  · intro h
    obtain ⟨_, done, h, _⟩ := h
    exact ⟨done, h⟩
  · intro h
    obtain ⟨done, h⟩ := h
    exact ⟨_, done, h, rfl⟩

/-- A row can be created of an object if all its keys are plain fields. -/
theorem exists_createValues_iff {table : Table} {ms : Members} :
    (∃ bag, createValues table (.obj ms) = .ok bag) ↔
      ∀ key ∈ Assoc.keys ms, key ∈ table.plainNames := by
  rw [createValues, exists_bind_pure_eq_ok, exists_writtenMembers_iff]

/-- A patch can be written if all its keys are plain fields. -/
theorem exists_updateValues_iff {table : Table} {rowId : Value} {ms : Members} :
    (∃ bag, updateValues table rowId (.obj ms) = .ok bag) ↔
      ∀ key ∈ Assoc.keys ms, key ∈ table.plainNames := by
  rw [updateValues, exists_bind_pure_eq_ok, exists_writtenMembers_iff]

/-- A creation binds the members of its values under the name of a row, or nothing. -/
theorem createBag_eq_ok {table : Table} {values : Value} {bag : Members}
    (h : createBag table values = .ok bag) :
    (values.isNull = true ∧ bag = []) ∨ (values.isNull = false ∧ ∃ ms, values.entries = .ok ms ∧
      bag = ([("input", .obj [(Naming.singular table.name, .obj ms)])] : Members)) := by
  cases hnull : values.isNull with
  | true =>
      simp only [createBag, hnull, if_true] at h
      exact .inl ⟨rfl, (Except.ok.inj h).symm⟩
  | false =>
      simp only [createBag, hnull, Bool.false_eq_true, if_false, createValues, bind_eq_ok,
        pure_eq_ok] at h
      obtain ⟨ms, hms, hbag⟩ := h
      exact .inr ⟨rfl, ms, entries_of_writtenMembers hms, hbag.symm⟩

/-- An update binds its key and the members of its patch, or nothing. -/
theorem updateBag_eq_ok {table : Table} {rowId patch : Value} {bag : Members}
    (h : updateBag table rowId patch = .ok bag) :
    (rowId.isNull = true ∧ bag = []) ∨ (rowId.isNull = false ∧
      ∃ ms, (patch.orElse (.obj [])).entries = .ok ms ∧
        bag = ([("input", .obj [("id", rowId), ("patch", .obj ms)])] : Members)) := by
  cases hnull : rowId.isNull with
  | true =>
      simp only [updateBag, hnull, if_true] at h
      exact .inl ⟨rfl, (Except.ok.inj h).symm⟩
  | false =>
      simp only [updateBag, hnull, Bool.false_eq_true, if_false, updateValues, bind_eq_ok,
        pure_eq_ok] at h
      obtain ⟨ms, hms, hbag⟩ := h
      exact .inr ⟨rfl, ms, entries_of_writtenMembers hms, hbag.symm⟩

/-! ## the operations -/

/-- A document declares and takes variables, and comes with a value for each,
in the same order. -/
structure BoundDocument.Carries (c : BoundDocument)
    (entries : List (VariableDefinition × Value)) : Prop where
  declares : c.Declares (entries.map Prod.fst)
  valued : c.values = entries.map fun e => (e.1.name, e.2)

section

variable {registry : Registry} {tables : List Table} {table : Table} {c : BoundDocument}

/-- A document that takes all variables of some bindings carries them. -/
theorem carries_boundDocument {kind : OperationKind} {name root : Text}
    {bindings : List Binding} {nodes : List Node} :
    BoundDocument.Carries
      ⟨boundDocument kind name root (bindings.map Binding.definition) nodes,
        bindings.map Binding.member⟩ (bindings.map Binding.entry) := by
  have hdefinitions : (bindings.map Binding.entry).map Prod.fst =
      bindings.map Binding.definition := by
    rw [List.map_map]
    rfl
  refine ⟨?_, ?_⟩
  · rw [hdefinitions]
    exact declares_boundDocument
  · rw [List.map_map]
    rfl

/-- A query carries the values of the slots that are set. -/
theorem rowsQuery_carries {spec : Option Spec} {o : RowOptions}
    (h : rowsQuery registry tables table spec o = .ok c) :
    ∃ order, o.orderWords = .ok order ∧ c.Carries (setSlots (o.slots table order)) := by
  obtain ⟨_, rows, bindings, _, hbindings, hc⟩ := rowsQuery_eq_ok.1 h
  obtain ⟨order, horder, hentries⟩ := map_entry_rowBindings hbindings
  refine ⟨order, horder, ?_⟩
  rw [hc, ← hentries, rowsDocument, ← map_definition_rowBindings hbindings]
  exact carries_boundDocument

/-- A query is answered if its options pass their check, its selection fits, and its order
can be written. -/
theorem exists_rowsQuery_iff {spec : Option Spec} {o : RowOptions} :
    (∃ c, rowsQuery registry tables table spec o = .ok c) ↔
      o.check = .ok () ∧ WellTyped registry tables table spec ∧
        ∃ words, o.orderWords = .ok words := by
  simp only [rowsQuery_eq_ok, ← exists_selectionNodes_iff, rowBindings, bind_eq_ok, pure_eq_ok]
  constructor
  · rintro ⟨_, hcheck, rows, _, hrows, ⟨words, hwords, -⟩, -⟩
    exact ⟨hcheck, ⟨rows, hrows⟩, words, hwords⟩
  · rintro ⟨hcheck, ⟨rows, hrows⟩, words, hwords⟩
    exact ⟨_, hcheck, rows, _, hrows, ⟨words, hwords, rfl⟩, rfl⟩

/-- A query tells of its page if that is asked for, or if it is read by a cursor. -/
theorem rowsQuery_pageInfo_iff {spec : Option Spec} {o : RowOptions}
    (h : rowsQuery registry tables table spec o = .ok c) :
    ("pageInfo" : Text) ∈ c.document.root.children.map Node.name ↔
      o.pageInfo = true ∨ o.after.isNull = false ∨ o.before.isNull = false := by
  obtain ⟨_, rows, _, _, _, hc⟩ := rowsQuery_eq_ok.1 h
  have hchildren : c.document.root.children =
      connectionNodes (o.pageInfo || (!o.after.isNull || !o.before.isNull)) rows := by
    rw [hc]
    rfl
  rw [hchildren, pageInfo_mem_connectionNodes]
  simp

/-- A document that carries the slots that are set declares a slot exactly if
it is set. -/
theorem BoundDocument.Carries.name_mem_iff {slots : List Slot} (h : c.Carries (setSlots slots))
    (hnames : (slots.map fun s => s.1.name).Nodup) {s : Slot} (hs : s ∈ slots) :
    s.1.name ∈ c.document.definitions.map VariableDefinition.name ↔ s.2.isSome = true := by
  rw [h.declares.declared, List.map_map]
  exact name_mem_setSlots_iff hnames hs

/-- No query asks for rows from a place and from a cursor at once. -/
theorem rowsQuery_offset_or_cursor {spec : Option Spec} {o : RowOptions}
    (h : rowsQuery registry tables table spec o = .ok c) :
    ¬ (("offset" : Text) ∈ c.document.definitions.map VariableDefinition.name ∧
      (("after" : Text) ∈ c.document.definitions.map VariableDefinition.name ∨
        ("before" : Text) ∈ c.document.definitions.map VariableDefinition.name)) := by
  obtain ⟨order, _, hcarries⟩ := rowsQuery_carries h
  have hslot : ∀ name type set v, (⟨name, type⟩, valueIf set v) ∈ o.slots table order →
      (name ∈ c.document.definitions.map VariableDefinition.name ↔ set = true) := by
    intro name type set v hs
    rw [← isSome_valueIf set v]
    exact hcarries.name_mem_iff (o.nodup_slots table order) hs
  rw [hslot _ _ _ _ (.tail _ (.head _)), hslot _ _ _ _ (.tail _ (.tail _ (.head _))),
    hslot _ _ _ _ (.tail _ (.tail _ (.tail _ (.head _))))]
  intro hboth
  have hcursor : o.byCursor = true := by simpa [RowOptions.byCursor] using hboth.2
  have hnull := RowOptions.offset_isNull_of_check (rowsQuery_eq_ok.1 h).1 hcursor
  rw [hnull] at hboth
  exact Bool.false_ne_true hboth.1

/-- A count carries its filter, if there is one. -/
theorem countQuery_carries {o : RowOptions} (h : countQuery table o = .ok c) :
    c.Carries (setSlots [(⟨"filter", .named (Naming.typeName table.name ++ "Filter")⟩,
      valueIf o.filter.truthy o.filter)]) := by
  obtain ⟨_, hc⟩ := countQuery_eq_ok.1 h
  have hentries : setSlots [(⟨"filter", .named (Naming.typeName table.name ++ "Filter")⟩,
      valueIf o.filter.truthy o.filter)] =
      (optionBinding o.filter.truthy "filter" (filterTypeRef table) o.filter).map
        Binding.entry := by
    rw [setSlots_cons]
    exact List.append_nil _
  rw [hc, hentries, countDocument, ← map_definition_optionBinding _ _ _ o.filter]
  exact carries_boundDocument

end

/-! ## declared, taken and valued together -/

/-- **Variables of the operations**: a query declares, takes and comes with
values for just the options that are set, in their order; it asks about the
page if it is told to or goes by a cursor, and never goes by a cursor and by a
place at once.  A count knows only the filter.  A request for one row and a
mutation declare and take one variable, which is without a value in a template
and has just the value that was given otherwise. -/
theorem variables_of_operations (registry : Registry) (tables : List Table) (table : Table) :
    (∀ spec o c, rowsQuery registry tables table spec o = .ok c →
      (∃ order, o.orderWords = .ok order ∧ c.Carries (setSlots (o.slots table order))) ∧
      (("pageInfo" : Text) ∈ c.document.root.children.map Node.name ↔
        o.pageInfo = true ∨ o.after.isNull = false ∨ o.before.isNull = false) ∧
      ¬ (("offset" : Text) ∈ c.document.definitions.map VariableDefinition.name ∧
        (("after" : Text) ∈ c.document.definitions.map VariableDefinition.name ∨
          ("before" : Text) ∈ c.document.definitions.map VariableDefinition.name))) ∧
    (∀ o c, countQuery table o = .ok c →
      c.Carries (setSlots [(⟨"filter", .named (Naming.typeName table.name ++ "Filter")⟩,
        valueIf o.filter.truthy o.filter)])) ∧
    (∀ spec keyField keyType keyValue c,
      rowQuery registry tables table spec keyField keyType keyValue = .ok c →
      ∃ field type, keyField = .str field ∧ keyType = .str type ∧
        c.Declares [⟨field, .nonNull (.named type)⟩] ∧
        c.values = if keyValue.isNull then [] else [(field, keyValue)]) ∧
    (∀ spec values c, createMutation registry tables table spec values = .ok c →
      c.Declares
        [⟨"input", .nonNull (.named ("Create" ++ Naming.typeName table.name ++ "Input"))⟩] ∧
      ((values.isNull = true ∧ c.values = []) ∨
        (values.isNull = false ∧ ∃ ms, values.entries = .ok ms ∧
          c.values = ([("input", .obj [(Naming.singular table.name, .obj ms)])] : Members)))) ∧
    (∀ spec rowId patch c, updateMutation registry tables table spec rowId patch = .ok c →
      c.Declares
        [⟨"input", .nonNull (.named ("Update" ++ Naming.typeName table.name ++ "Input"))⟩] ∧
      ((rowId.isNull = true ∧ c.values = []) ∨
        (rowId.isNull = false ∧ ∃ ms, (patch.orElse (.obj [])).entries = .ok ms ∧
          c.values = ([("input", .obj [("id", rowId), ("patch", .obj ms)])] : Members)))) ∧
    ∀ rowId,
      (deleteMutation table rowId).Declares
        [⟨"input", .nonNull (.named ("Delete" ++ Naming.typeName table.name ++ "Input"))⟩] ∧
      (deleteMutation table rowId).values =
        if rowId.isNull then [] else ([("input", .obj [("id", rowId)])] : Members) := by
  refine ⟨fun spec o c h => ?_, fun o c h => countQuery_carries h,
    fun spec keyField keyType keyValue c h => ?_, fun spec values c h => ?_,
    fun spec rowId patch c h => ?_, fun rowId => ?_⟩
  · exact ⟨rowsQuery_carries h, rowsQuery_pageInfo_iff h, rowsQuery_offset_or_cursor h⟩
  · obtain ⟨field, type, nodes, hfield, htype, _, hc⟩ := rowQuery_eq_ok.1 h
    refine ⟨field, type, (checkName_eq_ok_iff.1 hfield).1, (checkName_eq_ok_iff.1 htype).1, ?_, ?_⟩
    · rw [hc]
      exact declares_boundDocument
    · rw [hc]
  · obtain ⟨payload, bag, _, hbag, hc⟩ := createMutation_eq_ok.1 h
    rw [hc]
    exact ⟨declares_mutationDocument, createBag_eq_ok hbag⟩
  · obtain ⟨_, payload, bag, _, hbag, hc⟩ := updateMutation_eq_ok.1 h
    rw [hc]
    exact ⟨declares_mutationDocument, updateBag_eq_ok hbag⟩
  · exact ⟨declares_mutationDocument, rfl⟩

/-- A page of no orders after the empty cursor, with a filter that asks for
nothing. -/
def Circle.emptyPage : RowOptions where
  limit := .int 0
  after := .str []
  filter := .obj []
  order := [.byField (.str "leadTime") "desc"]

/-- What is there but empty: the count zero and the empty cursor of a page, the
key zero of a row and a creation from no values have their variables; an empty
filter has none, and an update of no row has no value. -/
theorem variables_of_operations_empty :
    (∃ c, rowsQuery .standard Circle.tables Circle.order none Circle.emptyPage = .ok c ∧
      c.Carries [
        (⟨"first", .named "Int"⟩, .int 0), (⟨"after", .named "Cursor"⟩, .str []),
        (⟨"orderBy", .nonNull (.list (.nonNull (.named "OrdersOrderBy")))⟩,
          .arr [.str "LEAD_TIME_DESC"])] ∧
      ("pageInfo" : Text) ∈ c.document.root.children.map Node.name) ∧
    (∃ c, countQuery Circle.order Circle.emptyPage = .ok c ∧ c.Carries []) ∧
    (∃ c, rowQuery .standard Circle.tables Circle.order none (.str "id") (.str "Int") (.int 0) =
        .ok c ∧ c.Declares [⟨"id", .nonNull (.named "Int")⟩]) ∧
    (∃ c, createMutation .standard Circle.tables Circle.order none (.obj []) = .ok c ∧
      c.values = ([("input", .obj [("order", .obj [])])] : Members)) ∧
    ∃ c, updateMutation .standard Circle.tables Circle.order none .null .null = .ok c ∧
      c.values = [] := by
  obtain ⟨hrows, hcount, hrow, hcreate, hupdate, _⟩ :=
    variables_of_operations .standard Circle.tables Circle.order
  refine ⟨⟨_, rfl, ?_, ?_⟩, ⟨_, rfl, hcount Circle.emptyPage _ rfl⟩, ⟨_, rfl, ?_⟩,
    ⟨_, rfl, ?_⟩, ⟨_, rfl, ?_⟩⟩
  · obtain ⟨order, horder, hcarries⟩ := (hrows none Circle.emptyPage _ rfl).1
    have hwords : Circle.emptyPage.orderWords = .ok [.str "LEAD_TIME_DESC"] := rfl
    obtain rfl := ok_unique horder hwords
    exact hcarries
  · exact (hrows none Circle.emptyPage _ rfl).2.1.2 (.inr (.inl rfl))
  · obtain ⟨field, type, hfield, htype, hdeclares, _⟩ :=
      hrow none (.str "id") (.str "Int") (.int 0) _ rfl
    obtain rfl := Value.str.inj hfield
    obtain rfl := Value.str.inj htype
    exact hdeclares
  · rcases (hcreate none (.obj []) _ rfl).2 with h | h
    · exact absurd h.1 Bool.false_ne_true
    · obtain ⟨_, ms, hms, hvalues⟩ := h
      obtain rfl := ok_unique hms (Value.entries_obj [])
      exact hvalues
  · rcases (hupdate none .null .null _ rfl).2 with h | h
    · exact h.2
    · exact absurd h.1 Bool.noConfusion

end GraphDoc
