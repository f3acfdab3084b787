import GraphDoc.Options.Payload
import GraphDoc.Proofs.Options.Rows
import Mathlib.Tactic.MkIffOfInductiveProp

/-!
# GraphDoc.Proofs.Options.Spellings

Options in two spellings, and the value that is taken for them.

Nothing is lost (`Value.Keeps`) where the one value that the spellings give is taken,
and where two values are only accepted if they are the same.  The limit of a query is
taken so.  Of any other option the first spelling is taken if it is there at all
(`Value.spelt`); that loses nothing unless it hides what the second one gives
(`Value.keeps_spelt_iff`).

What is neither spelling of an option is refused, and the refusal tells all of it
(`RowOptions.ofValue_of_leftOver`, `payloadOfOptions_of_unknown`).
-/

namespace GraphDoc

namespace Value

/-! ## two spellings -/

variable {options : Value} {spelling other : Text}

/-- Where `v` is taken for an option, neither of its spellings loses a value: they do not
contradict each other, and if one of them gives none, the other one tells `v`. -/
@[mk_iff]
structure Keeps (options : Value) (spelling other : Text) (v : Value) : Prop where
  agree : ¬ options.Contradicts spelling other
  first : (options.option other).isNull = true → v = options.option spelling
  second : (options.option spelling).isNull = true → v = options.option other

/-- The first spelling of an option is there, and the second one gives a value that is
not the same. -/
def Hides (options : Value) (spelling other : Text) : Prop :=
  ∃ v, options.member? spelling = some v ∧ (options.option other).isNull = false ∧
    (v.isNull = true ∨ v.equals (options.option other) = false)

theorem isNull_iff {v : Value} : v.isNull = true ↔ v = .null := by
  cases v <;> simp [isNull]

/-- What the first spelling hides is all that is lost. -/
theorem keeps_spelt_iff :
    options.Keeps spelling other (options.spelt spelling other) ↔
      ¬ options.Hides spelling other := by
  rw [keeps_iff]
  cases hfirst : options.member? spelling with
  | none =>
      have hspelt : options.spelt spelling other = options.option other := by
        simp [spelt, option, hfirst]
      have hnull : options.option spelling = .null := by
        simp [option, hfirst, ofOption]
      simp [hspelt, hnull, Contradicts, Hides, hfirst, ← Bool.not_eq_true, isNull_iff]
  | some v =>
      have hspelt : options.spelt spelling other = v := by
        simp [spelt, hfirst, ofOption]
      have hoption : options.option spelling = v := by
        simp [option, hfirst, ofOption]
      simp only [hspelt, hoption, Contradicts, Hides, hfirst, Option.some.injEq, exists_eq_left',
        ← Bool.not_eq_true, isNull_iff]
      grind

/-- The limit that is read loses nothing where its spellings agree. -/
theorem keeps_limit (h : ¬ options.Contradicts "limit" "first") :
    options.Keeps "limit" "first"
      (if (options.option "limit").isNull then options.option "first"
        else options.option "limit") where
  agree := h
  first hnull := by
    by_cases hlimit : (options.option "limit").isNull = true
    · rw [if_pos hlimit, isNull_iff.1 hnull, isNull_iff.1 hlimit]
    · rw [if_neg hlimit]
  second hnull := if_pos hnull

end Value

/-! ## options of a query -/

/-- The entries of the order that a value tells; what does not count as given tells none. -/
def Value.Orders (v : Value) (entries : List OrderEntry) : Prop :=
  ∃ items, (v.orElse (.arr [])).walk = .ok items ∧ items.mapM OrderEntry.ofValue = .ok entries

/-- The order and the wish for page information are those that two values tell. -/
structure RowOptions.Takes (o : RowOptions) (order pageInfo : Value) : Prop where
  order : order.Orders o.order
  pageInfo : o.pageInfo = pageInfo.truthy

namespace RowOptions

variable {options : Value}

/-- What the options of a query are read from, option by option. -/
theorem takes_of_ofValue (h : options.IsRecord) {o : RowOptions} (ho : ofValue options = .ok o) :
    options.Keeps "limit" "first" o.limit ∧
      o.Takes (options.spelt "orderBy" "order_by")
        (options.spelt "includePageInfo" "include_page_info") := by
  obtain ⟨hagree, _, items, order, hwalk, hread, rfl⟩ := (ofValue_eq_ok h).1 ho
  exact ⟨Value.keeps_limit hagree, ⟨⟨items, hwalk, mapM_eq_ok.2 hread⟩, rfl⟩⟩

/-- Options are read if their limit does not contradict itself, they hold nothing else,
and the order that is taken can be read. -/
theorem exists_ofValue_iff (h : options.IsRecord) :
    (∃ o, ofValue options = .ok o) ↔
      ¬ options.Contradicts "limit" "first" ∧ leftOver options.bagEntries = [] ∧
        ∃ entries, (options.spelt "orderBy" "order_by").Orders entries := by
  simp only [ofValue_eq_ok h]
  constructor
  · rintro ⟨o, hagree, hleft, items, order, hwalk, hread, -⟩
    exact ⟨hagree, hleft, order, items, hwalk, mapM_eq_ok.2 hread⟩
  · rintro ⟨hagree, hleft, order, items, hwalk, hread⟩
    exact ⟨_, hagree, hleft, items, order, hwalk, mapM_eq_ok.1 hread, rfl⟩

/-- Options that hold more, and could be read without it, are refused with exactly the
names left over. -/
theorem ofValue_of_leftOver (h : options.IsRecord)
    (hagree : ¬ options.Contradicts "limit" "first") {order : List OrderEntry}
    (horder : (options.spelt "orderBy" "order_by").Orders order)
    (hleft : leftOver options.bagEntries ≠ []) :
    ∃ keys, keys.Perm ((leftOver options.bagEntries).map fun e => e.1.value) ∧
      ofValue options = .error (.options (.unknownQueryOptions keys)) := by
  obtain ⟨keys, hkeys, hperm⟩ := exists_sortedKeys fun e he => mem_of_mem_leftOver he
  obtain ⟨items, hwalk, hread⟩ := horder
  have hsome : ¬ (leftOver options.bagEntries).isEmpty = true := by
    rwa [List.isEmpty_iff]
  refine ⟨keys, hperm, ?_⟩
  simp only [ofValue_eq h, if_neg hagree, Value.order, hwalk, hread, hkeys, if_neg hsome, bind,
    Except.bind]

end RowOptions

/-! ## options of a mutation -/

/-- The options of a mutation are read off the entries of the object. -/
theorem payloadOfOptions_eq_ofEntries {options : Value} (h : options.IsRecord) :
    payloadOfOptions options = payloadOfEntries options.bagEntries :=
  h.read_eq rfl

/-- The selection of a mutation is the only option of it. -/
theorem payloadOfOptions_eq_ok {options : Value} (h : options.IsRecord) {spec : Option Spec} :
    payloadOfOptions options = .ok spec ↔
      withoutOption "fieldSelection" "field_selection" options.bagEntries = [] ∧
        Spec.ofValue (options.spelt "fieldSelection" "field_selection") = .ok spec := by
  rw [payloadOfOptions_eq_ofEntries h, payloadOfEntries, Value.ofOption_spelled]
  by_cases hleft : withoutOption "fieldSelection" "field_selection" options.bagEntries = []
  · simp [hleft, Value.spelt]
  · simp [hleft, bind_eq_ok]

/-- Options that hold more than the selection are refused with exactly the names left
over, before the selection is looked at. -/
theorem payloadOfOptions_of_unknown {options : Value} (h : options.IsRecord)
    (hleft : withoutOption "fieldSelection" "field_selection" options.bagEntries ≠ []) :
    ∃ keys, keys.Perm ((withoutOption "fieldSelection" "field_selection"
        options.bagEntries).map fun e => e.1.value) ∧
      payloadOfOptions options = .error (.options (.unknownMutationOptions keys)) := by
  obtain ⟨keys, hkeys, hperm⟩ := exists_sortedKeys fun e he => mem_of_mem_withoutOption he
  refine ⟨keys, hperm, ?_⟩
  simp [payloadOfOptions_eq_ofEntries h, payloadOfEntries, hleft, hkeys, bind, Except.bind, throw,
    throwThe, MonadExceptOf.throw]

/-! ## what is taken -/

/-- **Options in two spellings**: the limit of a query loses nothing, and a limit that is
told twice and not the same is refused.  An order, a wish for page information and the
selection of a mutation are read from the first spelling if it is there, and else from
the second; no other value is looked at to accept them, and what they lose is what the
first spelling hides. -/
theorem spellings_taken (ms : Members) :
    (∀ o, RowOptions.ofValue (.obj ms) = .ok o →
      (Value.obj ms).Keeps "limit" "first" o.limit ∧
        o.Takes ((Value.obj ms).spelt "orderBy" "order_by")
          ((Value.obj ms).spelt "includePageInfo" "include_page_info")) ∧
    ((Value.obj ms).Contradicts "limit" "first" →
      RowOptions.ofValue (.obj ms) = .error (.options (.limitAndFirst
        ((Value.obj ms).option "limit") ((Value.obj ms).option "first")))) ∧
    ((∃ o, RowOptions.ofValue (.obj ms) = .ok o) ↔
      ¬ (Value.obj ms).Contradicts "limit" "first" ∧
        RowOptions.leftOver (Value.obj ms).bagEntries = [] ∧
        ∃ entries, ((Value.obj ms).spelt "orderBy" "order_by").Orders entries) ∧
    (∀ spec, payloadOfOptions (.obj ms) = .ok spec ↔
      withoutOption "fieldSelection" "field_selection" (Value.obj ms).bagEntries = [] ∧
        Spec.ofValue ((Value.obj ms).spelt "fieldSelection" "field_selection") = .ok spec) ∧
    ∀ spelling other, (Value.obj ms).Keeps spelling other ((Value.obj ms).spelt spelling other) ↔
      ¬ (Value.obj ms).Hides spelling other := by
  refine ⟨fun o ho => RowOptions.takes_of_ofValue (.members ms) ho, fun hcontradicts => ?_,
    RowOptions.exists_ofValue_iff (.members ms),
    fun spec => payloadOfOptions_eq_ok (.members ms), fun _ _ => Value.keeps_spelt_iff⟩
  rw [RowOptions.ofValue_eq (.members ms), if_pos hcontradicts]

/-- A limit in one spelling, an order in the other one, and no page information. -/
def latest : Members :=
  [("first", .int 5), ("order_by", .arr [.str "NAME_ASC"]), ("includePageInfo", .null)]

/-- The limit under `first` and the order under `order_by` are taken, and a second limit
that is not the same is refused. -/
theorem spellings_taken_latest :
    (∃ o, RowOptions.ofValue (.obj latest) = .ok o ∧
      (Value.obj latest).Keeps "limit" "first" o.limit ∧
        o.Takes (.arr [.str "NAME_ASC"]) .null) ∧
    RowOptions.ofValue (.obj (("limit", .int 10) :: latest)) =
      .error (.options (.limitAndFirst (.int 10) (.int 5))) :=
  ⟨⟨_, rfl, (spellings_taken latest).1 _ rfl⟩,
    (spellings_taken (("limit", .int 10) :: latest)).2.1 (by decide)⟩

/-- An order under `order_by` is lost behind an `orderBy` that gives none. -/
theorem not_order_kept :
    ¬ ∀ (ms : Members) (o : RowOptions), RowOptions.ofValue (.obj ms) = .ok o →
      ((Value.obj ms).option "orderBy").isNull = true →
      ((Value.obj ms).option "order_by").isNull = false →
        ((Value.obj ms).option "order_by").Orders o.order := by
  intro h
  obtain ⟨items, hwalk, hread⟩ := h [("orderBy", .null), ("order_by", .arr [.str "NAME_ASC"])]
    _ rfl rfl rfl
  cases hwalk
  cases hread

end GraphDoc
