import GraphDoc.Input.Preparation
import GraphDoc.Proofs.Value.Members
import GraphDoc.Proofs.Value.Same

/-!
# GraphDoc.Proofs.Input.Entries

What the walk over a caller's values does with one entry.

A preparation that is handed over as a request is the preparation itself
(`Preparation.run_request`).  The walk looks at each entry alone: what is found
under a name is what goes of the entry under that name
(`Preparation.lookup_members`), by its name or else by its value, and by its value
alone where no names are listed (`Preparation.Impartial`).  An object goes with
what goes of its members (`Preparation.value_obj_eq_some`), any other value goes
as it is or not at all (`Preparation.eq_of_value_eq_some`), a primitive by whether
it clears a field or not (`Preparation.value_primitive`).  Two preparations of which
this is the same at all paths come to the same input
(`Preparation.AgreesAt.members_eq`).
-/

namespace GraphDoc

/-- A value that clears a field: nothing, or an empty text. -/
def Value.blank : Value → Bool
  | null => true
  | str t => t.isEmpty
  | _ => false

namespace Preparation

/-! ## requests -/

/-- The request that asks for a preparation of some values. -/
def request (p : Preparation) (values : Members) : PreparationRequest where
  operation := p.operation.text
  values := .obj values
  dirty := Value.ofOption (p.dirty.map .ofTexts)
  defaults := p.defaults
  always := .ofTexts p.always
  excluded := .ofTexts p.excluded

/-- A kind of input is found by its word. -/
theorem ofText?_text (operation : InputOperation) :
    InputOperation.ofText? operation.text = some operation := by
  cases operation <;> rfl

/-- A list of texts is a list of names. -/
theorem namesOf_ofTexts (names : List Text) :
    namesOf (.ofTexts names) = .ok (names.map Key.name) := by
  have hwalk : (Value.ofTexts names).walk = .ok (names.map Value.str) := rfl
  rw [namesOf, hwalk]
  exact mapM_toKey_texts names

theorem filterMap_name? (names : List Text) : (names.map Key.name).filterMap Key.name? = names := by
  rw [List.filterMap_map]
  exact List.filterMap_some

theorem any_stray_names (names : List Text) :
    ((names.map Key.name).any fun key => key.name?.isNone) = false := by
  simp [Key.name?]

/-- A request that asks for a preparation of some values gets what goes of
them. -/
theorem run_request (p : Preparation) (values : Members) :
    (p.request values).run = .ok (p.run values) := by
  obtain ⟨operation, dirty, defaults, always, excluded⟩ := p
  cases dirty with
  | none =>
      have hnull : (Value.ofOption (none : Option Value)).isNull = true := rfl
      simp only [PreparationRequest.run, request, ofText?_text, namesOf_ofTexts, filterMap_name?,
        Option.map_none, hnull, Value.members, bind, Except.bind, pure, Except.pure]
      simp
  | some dirty =>
      have hnull : (Value.ofOption (some (Value.ofTexts dirty))).isNull = false := rfl
      have hnames : (namesOf (Value.ofOption (some (.ofTexts dirty)))).map some =
          .ok (some (dirty.map Key.name)) := by
        rw [Value.ofOption, Option.getD_some, namesOf_ofTexts]
        rfl
      simp only [PreparationRequest.run, request, ofText?_text, namesOf_ofTexts, filterMap_name?,
        Option.map_some, hnull, hnames, Value.members, Option.getD_some, any_stray_names,
        bind, Except.bind, pure, Except.pure]
      simp

/-! ## one entry -/

variable {p : Preparation} {path key : Text} {ms : Members} {v w : Value}

/-- What of the entry under a name in the object at `path` goes, if anything. -/
def entry (p : Preparation) (path key : Text) (v : Value) : Option Value :=
  if p.excludes key (below path key) then none
  else if p.includes key (below path key) then some v
  else p.value (below path key) v

/-- Each entry is looked at alone. -/
theorem members_eq (p : Preparation) (path : Text) (ms : Members) :
    p.members path ms = ms.filterMap fun m => (p.entry path m.1 m.2).map fun w => (m.1, w) := by
  induction ms with
  | nil => simp [members]
  | cons m rest ih =>
      rw [members, List.filterMap_cons, entry, ih]
      by_cases hexcludes : p.excludes m.1 (below path m.1) = true
      · simp [hexcludes]
      · by_cases hincludes : p.includes m.1 (below path m.1) = true
        · simp [hexcludes, hincludes]
        · simp only [hexcludes, hincludes]
          cases p.value (below path m.1) m.2 <;> simp

/-- An entry goes exactly if it stands for an entry of the values. -/
theorem mem_members :
    (key, w) ∈ p.members path ms ↔ ∃ v, (key, v) ∈ ms ∧ p.entry path key v = some w := by
  rw [members_eq, List.mem_filterMap]
  simp only [Option.map_eq_some_iff]
  grind

/-- The keys that go are some of those that are there, in order. -/
theorem keys_members (p : Preparation) (path : Text) (ms : Members) :
    (Assoc.keys (p.members path ms)).Sublist (Assoc.keys ms) := by
  rw [members_eq]
  induction ms with
  | nil => simp
  | cons m rest ih =>
      rw [List.filterMap_cons, Assoc.keys_cons]
      cases p.entry path m.1 m.2 with
      | none => exact ih.cons m.1
      | some w => exact ih.cons_cons m.1

/-- The keys that go are distinct if those that are there are. -/
theorem nodup_keys_members (p : Preparation) (distinct : (Assoc.keys ms).Nodup) (path : Text) :
    (Assoc.keys (p.members path ms)).Nodup :=
  distinct.sublist (p.keys_members path ms)

/-- What is found under a name is what goes of the entry under that name. -/
theorem lookup_members (p : Preparation) (distinct : (Assoc.keys ms).Nodup) (path key : Text) :
    (p.members path ms).lookup key = (ms.lookup key).bind (p.entry path key) := by
  have hkept := p.nodup_keys_members distinct path
  apply Option.ext
  intro w
  rw [lookup_eq_some_iff_mem hkept, mem_members, Option.bind_eq_some_iff]
  simp only [lookup_eq_some_iff_mem distinct]

/-- What goes of an entry that is not excluded is the entry itself, if it always
goes, and else what goes of its value. -/
theorem entry_eq_some_iff :
    p.entry path key v = some w ↔
      p.excludes key (below path key) = false ∧
        ((p.includes key (below path key) = true ∧ w = v) ∨
          (p.includes key (below path key) = false ∧ p.value (below path key) v = some w)) := by
  rw [entry]
  cases p.excludes key (below path key) <;> cases p.includes key (below path key) <;>
    simp [eq_comm]

/-! ## entries without listed names -/

/-- No entry goes or stays behind because of its name. -/
structure Impartial (p : Preparation) : Prop where
  always : p.always = []
  excluded : p.excluded = []

/-- An entry then goes by its value alone. -/
theorem Impartial.entry_eq (h : p.Impartial) (path key : Text) :
    p.entry path key = p.value (below path key) := by
  funext v
  simp [entry, excludes, includes, h.always, h.excluded]

/-- Without lists each entry goes by its value. -/
theorem Impartial.members_eq (h : p.Impartial) (path : Text) (ms : Members) :
    p.members path ms =
      ms.filterMap fun m => (p.value (below path m.1) m.2).map fun w => (m.1, w) := by
  simp only [p.members_eq, h.entry_eq]

/-- Without lists an entry goes exactly if its value does. -/
theorem Impartial.mem_members (h : p.Impartial) :
    (key, w) ∈ p.members path ms ↔ ∃ v, (key, v) ∈ ms ∧ p.value (below path key) v = some w := by
  rw [Preparation.mem_members, h.entry_eq]

/-- Without lists, what goes under a key is what goes of the value under it. -/
theorem Impartial.lookup_members (h : p.Impartial) (distinct : (Assoc.keys ms).Nodup)
    (path key : Text) :
    (p.members path ms).lookup key = (ms.lookup key).bind (p.value (below path key)) := by
  rw [p.lookup_members distinct, h.entry_eq]

/-! ## one value -/

/-- An object goes with what goes of its members, if that is something. -/
theorem value_obj_eq_some :
    p.value path (.obj ms) = some w ↔
      p.reaches path = true ∧ p.members path ms ≠ [] ∧ w = .obj (p.members path ms) := by
  rw [value]
  by_cases hreaches : p.reaches path = true
  · by_cases hkept : p.members path ms = []
    · simp [hkept]
    · simp only [hreaches, hkept, if_true, if_false, List.isEmpty_iff, Option.some.injEq, true_and,
        ne_eq, not_false_eq_true]
      exact eq_comm
  · simp [hreaches]

/-- A primitive goes as it is, by one rule if it clears a field, and by another one if
it does not. -/
theorem value_primitive (hv : v.Primitive) (path : Text) :
    p.value path v =
      if (if v.blank then p.clears path else p.changes path v) then some v else none := by
  cases v with
  | missing => exact absurd rfl hv.filled
  | arr items => exact absurd rfl (hv.not_arr items)
  | obj ms => exact absurd rfl (hv.not_obj ms)
  | str t => cases h : t.isEmpty <;> simp [value, Value.blank, h]
  | _ => simp [value, Value.blank]

/-- A value that is no object goes as it is. -/
theorem eq_of_value_eq_some (hv : ∀ ms, v ≠ .obj ms) (h : p.value path v = some w) : w = v := by
  cases v with
  | obj ms => exact absurd rfl (hv ms)
  | _ => grind [value]

/-! ## preparations that agree -/

/-- Two preparations name the same entries, and at some paths the same goes of values
that are no objects, and both go on into objects or neither does. -/
structure AgreesAt (q p : Preparation) (P : Text → Prop) : Prop where
  always : q.always = p.always
  excluded : q.excluded = p.excluded
  reaches : ∀ path, P path → q.reaches path = p.reaches path
  value : ∀ path v, P path → (∀ ms, v ≠ .obj ms) → q.value path v = p.value path v

/-- Where they agree below a path once they agree at it, the same goes of all
members. -/
theorem AgreesAt.members_eq {q : Preparation} {P : Text → Prop} (h : q.AgreesAt p P)
    (hbelow : ∀ path key, P path → P (below path key))
    (hkeys : ∀ key ∈ Assoc.keys ms, P (below path key)) :
    q.members path ms = p.members path ms := by
  have hms : Throughout (fun _ => True) ms := .of_forall (fun _ => trivial) ms
  induction hms generalizing path with
  | @intro ms _ inside ih =>
      rw [q.members_eq, p.members_eq]
      refine List.filterMap_congr fun m hm => congrArg _ (Option.ext fun w => ?_)
      have hat : P (below path m.1) := hkeys m.1 (mem_keys_of_mem hm)
      simp only [entry_eq_some_iff, excludes, includes, h.always, h.excluded]
      rcases m.2.obj_or_not with ⟨inner, hinner⟩ | hobj
      · have hmembers := ih m.1 inner (hinner ▸ hm) fun key _ => hbelow _ key hat
        rw [hinner, value_obj_eq_some, value_obj_eq_some, hmembers, h.reaches _ hat]
      · rw [h.value _ m.2 hat hobj]

end Preparation

end GraphDoc
