import GraphDoc.Options.Rows
import GraphDoc.Proofs.Steps

/-!
# GraphDoc.Proofs.Options.Rows

Reading the options of a query, step by step.

Options come as an object or not at all (`Value.IsRecord`); either way they are
read from the entries of the object (`RowOptions.ofValue_eq_ofEntries`), and in
one order: the two spellings of the limit, the order, and what is left over
(`RowOptions.ofValue_eq`).
-/

namespace GraphDoc

/-! ## records -/

namespace Value

/-- An object or nothing. -/
inductive IsRecord : Value → Prop where
  | absent : IsRecord .null
  | members (ms : Members) : IsRecord (.obj ms)

/-- Options that are not there count as an empty object. -/
theorem IsRecord.orElse {v : Value} (h : v.IsRecord) : ∃ ms, v.orElse (.obj []) = .obj ms := by
  cases h with
  | absent => exact ⟨[], rfl⟩
  | members ms =>
      cases ms with
      | nil => exact ⟨[], rfl⟩
      | cons m rest => exact ⟨m :: rest, rfl⟩

/-- The members of an object under keys; none for any other value. -/
def bagEntries : Value → List (Key × Value)
  | obj ms => ms.map fun m => (.name m.1, m.2)
  | _ => []

/-- The keys of an object are names. -/
theorem exists_name_of_mem_bagEntries {v : Value} {e : Key × Value} (h : e ∈ v.bagEntries) :
    ∃ name, e.1 = .name name := by
  cases v with
  | obj ms =>
      obtain ⟨m, _, hm⟩ := List.mem_map.1 h
      exact ⟨m.1, by rw [← hm]⟩
  | _ => cases h

/-- What is read from the entries of an object only if there are any, and is the same
without them, is read from the entries. -/
theorem IsRecord.read_eq {α : Type} {v : Value} (h : v.IsRecord)
    {read : List (Key × Value) → Except Error α} {none : α} (hnone : read [] = .ok none) :
    (if v.truthy then do read (← v.bag) else .ok none) = read v.bagEntries := by
  cases h with
  | absent => exact hnone.symm
  | members ms =>
      cases ms with
      | nil => exact hnone.symm
      | cons m rest => rfl

/-- An entry is looked up as a member. -/
theorem lookup_bagEntries (v : Value) (key : Text) :
    v.bagEntries.lookup (.name key) = v.member? key := by
  cases v with
  | obj ms =>
      rw [bagEntries, member?]
      induction ms with
      | nil => rfl
      | cons m rest ih =>
          obtain ⟨k, w⟩ := m
          rw [List.map_cons, List.lookup_cons, List.lookup_cons, ih, Key.name_beq_name]
  | _ => rfl

/-- The value of an option, `null` for an absent one. -/
def option (options : Value) (name : Text) : Value := ofOption (options.member? name)

theorem lookup_option (options : Value) (name : Text) :
    ofOption (options.bagEntries.lookup (.name name)) = options.option name := by
  rw [lookup_bagEntries, option]

/-- The value under the first spelling of an option if it is there, also if it is
`null`, and else the value under the second. -/
def spelt (options : Value) (spelling other : Text) : Value :=
  ofOption ((options.member? spelling).or (options.member? other))

/-- An option in two spellings is read off the entries. -/
theorem ofOption_spelled (options : Value) (spelling other : Text) :
    ofOption (spelled spelling other options.bagEntries) = options.spelt spelling other := by
  unfold spelled spelt
  rw [lookup_bagEntries, lookup_bagEntries]
  cases options.member? spelling <;> rfl

/-- Both spellings of an option give a value, and not the same. -/
def Contradicts (options : Value) (spelling other : Text) : Prop :=
  (options.option spelling).isNull = false ∧ (options.option other).isNull = false ∧
    (options.option spelling).equals (options.option other) = false

instance (options : Value) (spelling other : Text) :
    Decidable (options.Contradicts spelling other) :=
  inferInstanceAs (Decidable (_ ∧ _ ∧ _))

/-- The entries of the order that options tell; what does not count as given is no
entries. -/
def order (options : Value) : Value := (options.spelt "orderBy" "order_by").orElse (.arr [])

end Value

/-! ## names left over -/

/-- Keys that are told in order are the keys of the entries, each as often. -/
theorem sortedKeys_perm {entries : List (Key × Value)} {keys : List Value}
    (h : sortedKeys entries = .ok keys) : keys.Perm (entries.map fun e => e.1.value) := by
  match entries with
  | [] =>
      cases h
      exact .refl _
  | [first] =>
      cases h
      exact .refl _
  | first :: second :: rest =>
      simp only [sortedKeys] at h
      split at h
      · cases h
        have hsorted := (Insertion.sort_perm Key.less (Assoc.keys (first :: second :: rest))).map
          Key.value
        exact hsorted.trans (.of_eq List.map_map)
      · cases h

/-- The keys of some entries of an object can be told in order, since all are names. -/
theorem exists_sortedKeys {options : Value} {entries : List (Key × Value)}
    (h : ∀ e ∈ entries, e ∈ options.bagEntries) :
    ∃ keys, sortedKeys entries = .ok keys ∧ keys.Perm (entries.map fun e => e.1.value) := by
  suffices hkeys : ∃ keys, sortedKeys entries = .ok keys from
    hkeys.imp fun _ hsorted => ⟨hsorted, sortedKeys_perm hsorted⟩
  match entries with
  | [] => exact ⟨_, rfl⟩
  | [first] => exact ⟨_, rfl⟩
  | first :: second :: rest =>
      have hcomparable : ((second :: rest).all fun e => Key.comparable first.1 e.1) = true := by
        rw [List.all_eq_true]
        intro e he
        obtain ⟨name, hname⟩ := Value.exists_name_of_mem_bagEntries (h first List.mem_cons_self)
        obtain ⟨other, hother⟩ :=
          Value.exists_name_of_mem_bagEntries (h e (List.mem_cons_of_mem _ he))
        rw [hname, hother]
        rfl
      rw [sortedKeys, if_pos hcomparable]
      exact ⟨_, rfl⟩

theorem mem_of_mem_withoutOption {spelling other : Text} {entries : List (Key × Value)}
    {e : Key × Value} (h : e ∈ withoutOption spelling other entries) : e ∈ entries :=
  List.mem_of_mem_filter (List.mem_of_mem_filter h)

namespace RowOptions

/-- The entries that are no options. -/
def leftOver (entries : List (Key × Value)) : List (Key × Value) :=
  spellings.foldl (fun rest s => withoutOption s.1 s.2 rest) entries

/-- What is left over was among the entries. -/
theorem mem_of_mem_leftOver {entries : List (Key × Value)} {e : Key × Value}
    (h : e ∈ leftOver entries) : e ∈ entries := by
  have hfold : ∀ (names : List (Text × Text)) (entries : List (Key × Value)),
      e ∈ names.foldl (fun rest s => withoutOption s.1 s.2 rest) entries → e ∈ entries := by
    intro names
    induction names with
    | nil => exact fun _ h => h
    | cons s rest ih => exact fun entries h => mem_of_mem_withoutOption (ih _ h)
  exact hfold spellings entries h

/-! ## reading -/

/-- The options that an object tells besides its order. -/
def taken (options : Value) (order : List OrderEntry) : RowOptions where
  limit :=
    if (options.option "limit").isNull then options.option "first" else options.option "limit"
  offset := options.option "offset"
  after := options.option "after"
  before := options.option "before"
  filter := options.option "where"
  order := order
  pageInfo := (options.spelt "includePageInfo" "include_page_info").truthy

/-- Options are read off the entries of the object. -/
theorem ofValue_eq_ofEntries {options : Value} (h : options.IsRecord) :
    ofValue options = ofEntries options.bagEntries :=
  h.read_eq rfl

/-- Options are read step by step: the limit, the order, what is left over. -/
theorem ofValue_eq {options : Value} (h : options.IsRecord) :
    ofValue options =
      if options.Contradicts "limit" "first" then
        .error (.options (.limitAndFirst (options.option "limit") (options.option "first")))
      else (do
        let items ← options.order.walk
        let order ← items.mapM OrderEntry.ofValue
        if (leftOver options.bagEntries).isEmpty then .ok (taken options order)
        else do
          let keys ← sortedKeys (leftOver options.bagEntries)
          .error (.options (.unknownQueryOptions keys))) := by
  have hlimits : (!(options.option "limit").isNull && !(options.option "first").isNull &&
      !(options.option "limit").equals (options.option "first")) = true ↔
        options.Contradicts "limit" "first" := by
    simp [Value.Contradicts, and_assoc]
  rw [ofValue_eq_ofEntries h]
  unfold ofEntries
  simp only [Value.lookup_option, Value.ofOption_spelled]
  by_cases hcontradicts : options.Contradicts "limit" "first"
  · rw [if_pos hcontradicts, if_pos (hlimits.2 hcontradicts)]
    rfl
  · rw [if_neg hcontradicts, if_neg (mt hlimits.1 hcontradicts), leftOver]
    refine bind_congr fun items => bind_congr fun order => ?_
    cases (spellings.foldl (fun rest s => withoutOption s.1 s.2 rest) options.bagEntries).isEmpty
    · rfl
    · rfl

/-- The options that were read, and their order item by item. -/
theorem ofValue_eq_ok {options : Value} (h : options.IsRecord) {o : RowOptions} :
    ofValue options = .ok o ↔
      ¬ options.Contradicts "limit" "first" ∧ leftOver options.bagEntries = [] ∧ ∃ items order,
        options.order.walk = .ok items ∧
        List.Forall₂ (fun v entry => OrderEntry.ofValue v = .ok entry) items order ∧
        o = taken options order := by
  rw [ofValue_eq h]
  by_cases hcontradicts : options.Contradicts "limit" "first"
  · simp [hcontradicts]
  · rw [if_neg hcontradicts]
    simp only [bind_eq_ok, mapM_eq_ok, hcontradicts, not_false_eq_true, true_and]
    by_cases hleft : leftOver options.bagEntries = []
    · simp only [hleft, List.isEmpty_nil, if_true, Except.ok.injEq, true_and]
      constructor
      · rintro ⟨items, hwalk, order, hread, ho⟩
        exact ⟨items, order, hwalk, hread, ho.symm⟩
      · rintro ⟨items, order, hwalk, hread, ho⟩
        exact ⟨items, hwalk, order, hread, ho.symm⟩
    · simp [hleft, bind_eq_ok]

end RowOptions

end GraphDoc
