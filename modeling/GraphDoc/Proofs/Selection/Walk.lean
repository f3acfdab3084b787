import GraphDoc.Proofs.Steps
import GraphDoc.Selection.Nodes

/-!
# GraphDoc.Proofs.Selection.Walk

The walk over a selection as one step for each entry.

* `selectionNodes_none` and `selectionNodes_some` give the fields of a selection
  as the fields of its columns or entries, one by one and never none at all.
* `selectionNodes_payload` turns a payload into a selection without relations.
* `Spec.induction_on` is the induction over the tree of a selection: what holds
  below every entry holds above.
-/

namespace GraphDoc

/-! ## below an entry -/

/-- What is selected of the rows behind a name; nothing in particular behind a
name alone. -/
def Selection.inner : Selection → Option Spec
  | leaf => none
  | whole => none
  | nested entries => some entries

mutual
/-- What holds of every selection whose entries it holds below. -/
theorem Selection.induction_inner {P : Option Spec → Prop} (absent : P none)
    (given : ∀ entries : Spec, (∀ e ∈ entries, P e.2.inner) → P (some entries)) :
    (s : Selection) → P s.inner
  | .leaf => absent
  | .whole => absent
  | .nested entries => given entries (Spec.induction_entries absent given entries)

/-- The same for the selections below a list of entries. -/
theorem Spec.induction_entries {P : Option Spec → Prop} (absent : P none)
    (given : ∀ entries : Spec, (∀ e ∈ entries, P e.2.inner) → P (some entries)) :
    (entries : List (Key × Selection)) → ∀ e ∈ entries, P e.2.inner
  | [], _, he => absurd he List.not_mem_nil
  | (_, s) :: rest, e, he => by
      rcases List.mem_cons.1 he with rfl | he
      · exact Selection.induction_inner absent given s
      · exact Spec.induction_entries absent given rest e he
end

/-- Induction over the tree of a selection. -/
theorem Spec.induction_on {P : Option Spec → Prop} (spec : Option Spec) (absent : P none)
    (given : ∀ entries : Spec, (∀ e ∈ entries, P e.2.inner) → P (some entries)) : P spec := by
  cases spec with
  | none => exact absent
  | some entries => exact given entries (Spec.induction_entries absent given entries)

/-! ## one field for each entry -/

variable {registry : Registry} {tables : List Table} {table : Table} {e : Error}

/-- Nodes are let through if there are any. -/
theorem nonemptyNodes_eq_ok {nodes found : List Node} :
    nonemptyNodes table nodes = .ok found ↔ nodes ≠ [] ∧ nodes = found := by
  cases nodes <;> simp [nonemptyNodes]

/-- A field fails only if it is composite and the registry has no parts for its type. -/
theorem fieldNode_eq_error {name : Text} {f : Field} :
    fieldNode registry name f = .error e ↔
      f.composite = true ∧ registry.find? f.wireType = none ∧
        e = .unsupportedType name f.name f.wireType := by
  unfold fieldNode fieldRequest
  cases f.composite <;> cases registry.find? f.wireType <;> simp [Except.map, eq_comm]

/-- A relation fails only if no table has the name of its target. -/
theorem Relation.resolve_eq_error {r : Relation} :
    r.resolve table tables = .error e ↔
      (∀ t ∈ tables, t.name ≠ r.target) ∧
        e = .unknownRelatedTable table.name r.field r.target := by
  have hmissing : tableNamed? tables r.target = none ↔ ∀ t ∈ tables, t.name ≠ r.target := by
    simp [tableNamed?]
  unfold Relation.resolve
  rw [← hmissing]
  cases tableNamed? tables r.target <;> simp [eq_comm]

/-- The far end of a relation, once it is found, is a table of the set. -/
theorem Relation.mem_of_resolve {r : Relation} {related : Table}
    (h : r.resolve table tables = .ok related) : related ∈ tables :=
  (mem_of_tableNamed? (Relation.resolve_eq_ok.1 h)).1

/-- Only no nodes at all are refused. -/
theorem nonemptyNodes_eq_error {nodes : List Node} :
    nonemptyNodes table nodes = .error e ↔ nodes = [] ∧ e = .selection (.empty table.name) := by
  cases nodes <;> simp [nonemptyNodes, eq_comm]

/-- Fields that are found one by one, at least one of them. -/
theorem nonempty_mapM_eq_ok {f : α → Except Error Node} {xs : List α} {nodes : List Node} :
    xs.mapM f >>= nonemptyNodes table = .ok nodes ↔
      xs ≠ [] ∧ List.Forall₂ (fun x n => f x = .ok n) xs nodes := by
  simp only [bind_eq_ok, nonemptyNodes_eq_ok, mapM_eq_ok]
  constructor
  · intro h
    obtain ⟨found, hf, hne, he⟩ := h
    subst he
    refine ⟨fun hx => ?_, hf⟩
    subst hx
    exact hne (List.forall₂_nil_left_iff.1 hf)
  · intro h
    obtain ⟨hne, hf⟩ := h
    exact ⟨nodes, hf, ne_nil_of_forall₂ hf hne, rfl⟩

/-- Nodes are made and let through if there is something to make them of and each can be
made. -/
theorem exists_nonempty_mapM_iff {f : α → Except Error Node} {xs : List α} :
    (∃ nodes, xs.mapM f >>= nonemptyNodes table = .ok nodes) ↔
      xs ≠ [] ∧ ∀ x ∈ xs, ∃ n, f x = .ok n := by
  simp only [nonempty_mapM_eq_ok, exists_and_left, ← mapM_eq_ok, exists_mapM_eq_ok]

/-- The field of one entry on a table. -/
def entryNode (registry : Registry) (tables : List Table) (table : Table) (key : Key)
    (s : Selection) : Except Error Node :=
  match table.relationOf? key with
  | some relation => do
    let related ← relation.resolve table tables
    let inner ← selectionNodes registry tables false related s.inner
    return relationNode relation inner
  | none => columnNode registry table key s

/-- Without a selection: the plain columns, one by one. -/
theorem selectionNodes_none :
    selectionNodes registry tables false table none =
      table.plainFields.mapM (fieldNode registry table.name) >>= nonemptyNodes table := by
  simp [selectionNodes, defaultNodes]

/-- Behind a relation its selection is requested of the related table. -/
theorem relatedNodes_eq (s : Selection) :
    relatedNodes registry tables table s = selectionNodes registry tables false table s.inner := by
  cases s <;> simp [relatedNodes, selectionNodes, Selection.inner]

/-- Entries are requested one by one. -/
theorem entryNodes_eq_mapM (entries : Spec) :
    entryNodes registry tables false table entries =
      entries.mapM fun e => entryNode registry tables table e.1 e.2 := by
  induction entries with
  | nil => simp [entryNodes, pure, Except.pure]
  | cons e rest ih =>
      obtain ⟨key, s⟩ := e
      cases h : table.relationOf? key with
      | some relation =>
          simp [entryNodes, entryNode, h, relatedNodes_eq, ih]
      | none => simp [entryNodes, entryNode, h, ih]

/-- With a selection: its entries, one by one. -/
theorem selectionNodes_some (entries : Spec) :
    selectionNodes registry tables false table (some entries) =
      (entries.mapM fun e => entryNode registry tables table e.1 e.2) >>= nonemptyNodes table := by
  simp [selectionNodes, entryNodes_eq_mapM]

/-! ## payloads -/

/-- Whether a key names no relation of a table. -/
def Table.isPlain (table : Table) (key : Key) : Bool := (table.relationOf? key).isNone

/-- A selection without its relations; nothing in particular if nothing else
is left. -/
def payloadSpec (table : Table) (spec : Option Spec) : Option Spec :=
  match spec.map (List.filter fun e => table.isPlain e.1) with
  | some (e :: rest) => some (e :: rest)
  | _ => none

/-- Of an answer only the plain entries are requested. -/
theorem entryNodes_payload (entries : Spec) :
    entryNodes registry tables true table entries =
      (entries.filter fun e => table.isPlain e.1).mapM
        fun e => entryNode registry tables table e.1 e.2 := by
  induction entries with
  | nil => simp [entryNodes, pure, Except.pure]
  | cons e rest ih =>
      obtain ⟨key, s⟩ := e
      cases h : table.relationOf? key with
      | some relation => simp [entryNodes, Table.isPlain, h, ih]
      | none => simp [entryNodes, entryNode, Table.isPlain, h, ih]

/-- A payload is a selection without relations. -/
theorem selectionNodes_payload (spec : Option Spec) :
    selectionNodes registry tables true table spec =
      selectionNodes registry tables false table (payloadSpec table spec) := by
  cases spec with
  | none =>
      simp only [payloadSpec, Option.map_none, selectionNodes, Bool.and_true, Bool.and_false]
      cases h : defaultNodes registry table with
      | error e => rfl
      | ok nodes => cases nodes <;> simp [bind, Except.bind, pure, Except.pure]
  | some entries =>
      have hwalk : entryNodes registry tables true table entries = _ := entryNodes_payload entries
      cases hf : entries.filter fun e => table.isPlain e.1 with
      | nil =>
          have hspec : payloadSpec table (some entries) = none := by simp [payloadSpec, hf]
          rw [hspec, selectionNodes_none]
          simp [selectionNodes, hwalk, hf, defaultNodes]
      | cons e rest =>
          have hspec : payloadSpec table (some entries) = some (e :: rest) := by
            simp [payloadSpec, hf]
          rw [hspec, selectionNodes_some, ← hf, ← hwalk]
          cases h : entryNodes registry tables true table entries with
          | error e => simp [selectionNodes, h, bind, Except.bind]
          | ok nodes =>
              have hne : nodes ≠ [] := by
                intro hn
                rw [hn, hwalk, hf, mapM_eq_ok] at h
                cases h
              simp [selectionNodes, h, hne, bind, Except.bind, pure, Except.pure]

end GraphDoc
