import GraphDoc.Proofs.Document.Shape
import GraphDoc.Proofs.Naming.Grammar
import GraphDoc.Proofs.Selection.Descent

/-!
# GraphDoc.Proofs.Document.Names

The names in a document, and where those in the fields of a selection come
from.

The printer writes the names of a document as they are, so a document is only
safe to print if each of them is a name of the grammar (`Document.Named`).  A
selection takes up names from its own table and from the tables that it
descends to (`TakenUp`).  The names in its fields are these and fixed ones
(`Requests.allValid_iff`), and each of them has passed the check of its table
(`TakenUp.accepted`).
-/

namespace GraphDoc

open Name

/-! ## the names in a document -/

def TypeRef.name : TypeRef → Text
  | named name => name
  | list item => item.name
  | nonNull inner => inner.name

def ArgumentValue.names : ArgumentValue → List Text
  | var name => [name]
  | int _ => []

def Argument.names (a : Argument) : List Text := a.name :: a.value.names

mutual
/-- The names in a field and in the fields below it. -/
def Node.names : Node → List Text
  | .leaf name arguments => name :: arguments.flatMap Argument.names
  | .branch name arguments children =>
    name :: (arguments.flatMap Argument.names ++ Node.allNames children)

/-- The names in fields. -/
def Node.allNames : List Node → List Text
  | [] => []
  | n :: rest => n.names ++ Node.allNames rest
end

def VariableDefinition.names (d : VariableDefinition) : List Text := [d.name, d.type.name]

def Document.names (d : Document) : List Text :=
  d.name :: (d.definitions.flatMap VariableDefinition.names ++ d.root.names)

/-- Texts that are names, one and all. -/
def AllValid (ts : List Text) : Prop := ∀ t ∈ ts, valid t = true

instance (ts : List Text) : Decidable (AllValid ts) :=
  inferInstanceAs (Decidable (∀ t ∈ ts, valid t = true))

/-- Every name in a document is a name of the grammar. -/
def Document.Named (d : Document) : Prop := AllValid d.names

instance (d : Document) : Decidable d.Named := inferInstanceAs (Decidable (AllValid d.names))

/-- The parts of every type are requested by names. -/
def Registry.Named (r : Registry) : Prop := ∀ e ∈ r.entries, AllValid e.2

/-- The parts of the standard types have valid names. -/
theorem Registry.named_standard : Registry.standard.Named := by
  have hentries : ∀ e ∈ Registry.standard.entries, AllValid e.2 := by decide
  exact hentries

/-! ## lists of names -/

@[simp] theorem allValid_nil : AllValid [] := fun _ h => absurd h List.not_mem_nil

@[simp] theorem allValid_cons {t : Text} {ts : List Text} :
    AllValid (t :: ts) ↔ valid t = true ∧ AllValid ts := List.forall_mem_cons

@[simp] theorem allValid_append {ts us : List Text} :
    AllValid (ts ++ us) ↔ AllValid ts ∧ AllValid us := List.forall_mem_append

theorem allValid_flatMap {α : Type} {xs : List α} {f : α → List Text} :
    AllValid (xs.flatMap f) ↔ ∀ x ∈ xs, AllValid (f x) := List.forall_mem_flatMap

/-- The names of nodes are those of each of them. -/
theorem Node.allNames_eq_flatMap (nodes : List Node) :
    Node.allNames nodes = nodes.flatMap Node.names := by
  induction nodes with
  | nil => rfl
  | cons n rest ih => rw [Node.allNames, ih, List.flatMap_cons]

/-- The names of nodes are valid if those of each of them are. -/
theorem allValid_allNames {nodes : List Node} :
    AllValid (Node.allNames nodes) ↔ ∀ n ∈ nodes, AllValid n.names := by
  rw [Node.allNames_eq_flatMap, allValid_flatMap]

/-- The parts that a registry with names knows for a type are names. -/
theorem Registry.Named.find? {r : Registry} (hr : r.Named) {wireType : Text} {parts : List Text}
    (h : r.find? wireType = some parts) : AllValid parts := by
  obtain ⟨type, hmem⟩ := mem_entries_of_find? h
  exact hr (type, parts) hmem

/-! ## the names in a table -/

/-- The names that the columns and the relations of a table go by. -/
def Table.memberNames (t : Table) : List Text :=
  t.fields.map Field.name ++ t.relations.toList.map Relation.field

/-- The name of a field is the name of a member. -/
theorem Table.name_mem_memberNames {t : Table} {f : Field} (h : f ∈ t.fields) :
    f.name ∈ t.memberNames :=
  List.mem_append_left _ (List.mem_map_of_mem h)

/-- The name of a relation is the name of a member. -/
theorem Table.field_mem_memberNames {t : Table} {r : Relation} (h : r ∈ t.relations.toList) :
    r.field ∈ t.memberNames :=
  List.mem_append_right _ (List.mem_map_of_mem h)

/-- The names in a checked table have passed the check. -/
theorem Table.Checked.accepted_memberNames {t : Table} (h : t.Checked) :
    ∀ name ∈ t.memberNames, Name.accepted name = true := by
  rw [Table.memberNames, List.forall_mem_append, List.forall_mem_map, List.forall_mem_map]
  exact ⟨fun f hf => (h.2.1 f hf).1, fun r hr => (h.2.2 r hr).1⟩

/-! ## the names that a selection takes up -/

/-- A name that a selection asks for, on its own table or further down. -/
def TakenUp (tables : List Table) (table : Table) (spec : Option Spec) (name : Text) : Prop :=
  ∃ far rest, Descends tables table spec far rest ∧ .name name ∈ selectedKeys far rest

section

variable {registry : Registry} {tables : List Table} {table : Table} {name : Text}

/-- Without a selection the plain fields are taken up. -/
theorem takenUp_none : TakenUp tables table none name ↔ name ∈ table.plainNames := by
  constructor
  · intro h
    obtain ⟨far, rest, hdesc, hname⟩ := h
    cases hdesc
    simpa [selectedKeys] using hname
  · intro h
    exact ⟨table, none, .here, List.mem_map_of_mem h⟩

/-- What an entry takes up: its own name, and what is taken up behind it. -/
def EntryTakenUp (tables : List Table) (table : Table) (key : Key) (s : Selection)
    (name : Text) : Prop :=
  key = .name name ∨ ∃ r related, table.relationOf? key = some r ∧
    r.resolve table tables = .ok related ∧ TakenUp tables related s.inner name

/-- A selection takes up what its entries take up. -/
theorem takenUp_some {entries : Spec} :
    TakenUp tables table (some entries) name ↔
      ∃ e ∈ entries, EntryTakenUp tables table e.1 e.2 name := by
  constructor
  · intro h
    obtain ⟨far, rest, hdesc, hname⟩ := h
    cases hdesc with
    | here =>
        obtain ⟨e, he, hkey⟩ := List.mem_map.1 hname
        exact ⟨e, he, Or.inl hkey⟩
    | step entry named target next =>
        exact ⟨_, entry, Or.inr ⟨_, _, named, target, far, rest, next, hname⟩⟩
  · intro h
    obtain ⟨e, he, hentry⟩ := h
    cases hentry with
    | inl hkey => exact ⟨table, some entries, .here, List.mem_map.2 ⟨e, he, hkey⟩⟩
    | inr hbehind =>
        obtain ⟨r, related, named, target, far, rest, next, hname⟩ := hbehind
        exact ⟨far, rest, .step he named target next, hname⟩

/-- A relation takes up its own name and what is read behind it. -/
theorem entryTakenUp_relation {key : Key} {s : Selection} {r : Relation} {related : Table}
    (named : table.relationOf? key = some r) (target : r.resolve table tables = .ok related) :
    EntryTakenUp tables table key s name ↔
      name = r.field ∨ TakenUp tables related s.inner name := by
  have hown : key = .name name ↔ name = r.field := by
    rw [(Table.mem_of_relationOf? named).2, Key.name.injEq, eq_comm]
  have hbehind : (∃ r' related', table.relationOf? key = some r' ∧
      r'.resolve table tables = .ok related' ∧ TakenUp tables related' s.inner name) ↔
      TakenUp tables related s.inner name := by
    simp [named, target]
  rw [EntryTakenUp, hown, hbehind]

/-- A column takes up its own name. -/
theorem entryTakenUp_column {key : Key} {s : Selection} {f : Field}
    (plain : table.relationOf? key = none) (named : table.fieldOf? key = some f) :
    EntryTakenUp tables table key s name ↔ name = f.name := by
  have hown : key = .name name ↔ name = f.name := by
    rw [(Table.mem_of_fieldOf? named).2, Key.name.injEq, eq_comm]
  simp [EntryTakenUp, hown, plain]

/-! ## the names in the fields of a selection -/

/-- A column is requested under valid names if its own is valid. -/
theorem ColumnRequest.allValid_iff (hr : registry.Named) {f : Field} {n : Node}
    (h : ColumnRequest registry f n) : AllValid n.names ↔ valid f.name = true := by
  cases h with
  | plain _ => simp [Node.names]
  | expanded _ known =>
      have hparts := hr.find? known
      simp only [Node.names, List.flatMap_nil, List.nil_append, allValid_cons,
        allValid_allNames, List.forall_mem_map, allValid_nil, and_true]
      exact and_iff_left hparts

/-- The names in the field of an entry are those that it takes up, and fixed
ones. -/
theorem EntryRequest.allValid_iff (hr : registry.Named) {key : Key} {s : Selection} {n : Node}
    (h : EntryRequest registry tables table key s n)
    (below : ∀ related nodes, Requests registry tables related s.inner nodes →
      (AllValid (Node.allNames nodes) ↔ ∀ t, TakenUp tables related s.inner t → valid t = true)) :
    AllValid n.names ↔ ∀ t, EntryTakenUp tables table key s t → valid t = true := by
  cases h with
  | singular named _ target hn =>
      simp only [entryTakenUp_relation named (Relation.resolve_eq_ok.2 target), forall_eq_or_imp,
        ← below _ _ hn]
      simp [Node.names]
  | plural named _ target hn =>
      have hfirst : valid "first" = true := by decide
      have hnodes : valid "nodes" = true := by decide
      simp only [entryTakenUp_relation named (Relation.resolve_eq_ok.2 target), forall_eq_or_imp,
        ← below _ _ hn]
      simp [Node.names, Node.allNames, Argument.names, ArgumentValue.names, hfirst, hnodes]
  | column plain named request =>
      simp only [entryTakenUp_column plain named, forall_eq]
      exact request.allValid_iff hr

/-- **Names of a selection**: the names in its fields are those that it takes
up, and fixed ones. -/
theorem Requests.allValid_iff (hr : registry.Named) {spec : Option Spec} {nodes : List Node}
    (h : Requests registry tables table spec nodes) :
    AllValid (Node.allNames nodes) ↔ ∀ t, TakenUp tables table spec t → valid t = true := by
  induction spec using Spec.induction_on generalizing table nodes with
  | absent =>
      cases h with
      | absent _ columns =>
          simp only [takenUp_none, Table.plainNames, List.forall_mem_map]
          rw [allValid_allNames]
          exact forall_mem_iff_of_forall₂ columns fun f _ n hn => hn.allValid_iff hr
  | given entries ih =>
      cases h with
      | given _ each =>
          rw [entriesRequest_iff_forall₂] at each
          have hentries : (∀ t, TakenUp tables table (some entries) t → valid t = true) ↔
              ∀ e ∈ entries, ∀ t, EntryTakenUp tables table e.1 e.2 t → valid t = true := by
            refine ⟨fun h e he t ht => h t (takenUp_some.2 ⟨e, he, ht⟩), fun h t ht => ?_⟩
            obtain ⟨e, he, hentry⟩ := takenUp_some.1 ht
            exact h e he t hentry
          rw [allValid_allNames, hentries]
          refine forall_mem_iff_of_forall₂ each fun e he n hn => ?_
          exact hn.allValid_iff hr fun related nodes hnodes => ih e he hnodes

/-- The field of an entry is named after a column or a relation of the table. -/
theorem EntryRequest.name_mem {key : Key} {s : Selection} {n : Node}
    (h : EntryRequest registry tables table key s n) : n.name ∈ table.memberNames := by
  cases h with
  | singular named =>
      exact Table.field_mem_memberNames (Table.mem_of_relationOf? named).1
  | plural named =>
      exact Table.field_mem_memberNames (Table.mem_of_relationOf? named).1
  | column _ named request =>
      rw [request.name_eq]
      exact Table.name_mem_memberNames (Table.mem_of_fieldOf? named).1

/-- The fields of a selection are named after columns and relations of the
table. -/
theorem Requests.name_mem {spec : Option Spec} {nodes : List Node}
    (h : Requests registry tables table spec nodes) : ∀ n ∈ nodes, n.name ∈ table.memberNames := by
  cases h with
  | absent _ columns =>
      refine forall_mem_of_forall₂ columns fun f hf n hn => ?_
      rw [hn.name_eq]
      exact Table.name_mem_memberNames (Table.mem_plainFields.1 hf).1
  | given _ each =>
      rw [entriesRequest_iff_forall₂] at each
      exact forall_mem_of_forall₂ each fun e _ n hn => hn.name_mem

/-- What holds of the names of all tables holds of those that a selection with
fields takes up. -/
theorem TakenUp.forall_names {P : Text → Prop}
    (hts : ∀ t ∈ tables, ∀ name ∈ t.memberNames, P name) (ht : ∀ name ∈ table.memberNames, P name)
    {spec : Option Spec} {nodes : List Node} (h : Requests registry tables table spec nodes)
    (hname : TakenUp tables table spec name) : P name := by
  obtain ⟨far, rest, hdesc, hname⟩ := hname
  obtain ⟨found, hfound⟩ := hdesc.requests h
  rw [← hfound.names_eq] at hname
  obtain ⟨n, hn, hkey⟩ := List.mem_map.1 hname
  rw [← Key.name.inj hkey]
  exact hdesc.forall_tables (P := fun t => ∀ name ∈ t.memberNames, P name) ht hts _
    (hfound.name_mem n hn)

/-- The names that a selection with fields takes up have passed the check of
their tables. -/
theorem TakenUp.accepted (hts : ∀ t ∈ tables, t.Checked) (ht : table.Checked)
    {spec : Option Spec} {nodes : List Node} (h : Requests registry tables table spec nodes)
    (hname : TakenUp tables table spec name) : Name.accepted name = true :=
  hname.forall_names (fun t hmem => (hts t hmem).accepted_memberNames) ht.accepted_memberNames h

end

end GraphDoc
