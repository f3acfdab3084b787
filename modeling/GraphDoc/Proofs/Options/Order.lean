import GraphDoc.Proofs.Document.Variables
import GraphDoc.Proofs.Options.Spellings
import GraphDoc.Proofs.Service.Misorder
import GraphDoc.Proofs.Text.Case
import Mathlib.Data.List.SplitBy

/-!
# GraphDoc.Proofs.Options.Order

The order of a query, from the options to the document.

An entry of an order is carried as one value (`Value.CarriedAs`): a word as it is, a field
as its words in capitals (`Naming.camelWords`) with the direction behind them.  A query whose
order has entries declares a variable for it, takes it and comes with the values of the
entries, one for each and in their order (`BoundDocument.CarriesOrder`).  What is walked
over for the entries may be a list; but it may also be a text, letter by letter, or an
object, name by name.
-/

namespace GraphDoc

/-! ## the words of a field -/

namespace Naming

/-- The words of a name: it is cut at every boundary between a lower-case letter or a
digit and a capital. -/
def camelWords (t : Text) : List Text := t.splitBy fun a b => !(endsWord a && startsWord b)

/-- A text that is not empty has a word. -/
theorem camelWords_ne_nil (c : CodePoint) (rest : Text) : camelWords (c :: rest) ≠ [] :=
  List.splitBy_ne_nil.2 (List.cons_ne_nil c rest)

/-- A word ends where the next one starts. -/
theorem camelWords_of_boundary {a b : CodePoint} (rest : Text)
    (h : (endsWord a && startsWord b) = true) :
    camelWords (a :: b :: rest) = [a] :: camelWords (b :: rest) := by
  have hcut : ∀ x ∈ [a].getLast?, (!(endsWord x && startsWord b)) = false := by
    intro x hx
    obtain rfl : a = x := Option.some.inj hx
    rw [h]
    rfl
  have happend : camelWords ([a] ++ b :: rest) = camelWords [a] ++ camelWords (b :: rest) :=
    List.splitBy_append_cons rest hcut
  have hone : camelWords [a] = [[a]] := rfl
  rwa [hone] at happend

/-- Where there is no boundary behind it, a code point goes with the word behind it. -/
theorem camelWords_of_not_boundary {a b : CodePoint} {rest : Text}
    (h : (endsWord a && startsWord b) = false) {first : Text} {others : List Text}
    (hwords : camelWords (b :: rest) = first :: others) :
    camelWords (a :: b :: rest) = (a :: first) :: others := by
  obtain ⟨hjoin, hnonempty, hchain, hcuts⟩ := List.splitBy_eq_iff.1 hwords
  rw [List.mem_cons, not_or] at hnonempty
  obtain ⟨c, tail, rfl⟩ := List.exists_cons_of_ne_nil (Ne.symm hnonempty.1)
  obtain rfl : b = c := (List.cons.inj hjoin).1
  rw [List.forall_mem_cons] at hchain
  rw [List.isChain_cons] at hcuts
  refine List.splitBy_eq_iff.2 ⟨?_, ?_, ?_, ?_⟩
  · rw [hjoin]
    rfl
  · simpa using hnonempty.2
  · rw [List.forall_mem_cons]
    refine ⟨List.isChain_cons_cons.2 ⟨?_, hchain.1⟩, hchain.2⟩
    rw [h]
    rfl
  · rw [List.isChain_cons]
    refine ⟨fun next hnext => ?_, hcuts.2⟩
    obtain ⟨_, hne, hcut⟩ := hcuts.1 next hnext
    exact ⟨List.cons_ne_nil _ _, hne, by rwa [List.getLast_cons_cons]⟩

/-- The backend writes a name with an underscore between its words. -/
theorem snake_eq_separated (t : Text) : snake t = Text.separated "_" (camelWords t) := by
  induction t using snake.induct with
  | case1 a b rest h ih =>
      rw [snake, if_pos h, camelWords_of_boundary rest h, Text.separated,
        List.intercalate_cons_of_ne_nil (camelWords_ne_nil b rest), ih]
      rfl
  | case2 a b rest h ih =>
      rw [Bool.not_eq_true] at h
      obtain ⟨first, others, hwords⟩ := List.exists_cons_of_ne_nil (camelWords_ne_nil b rest)
      rw [snake, if_neg (by rw [h]; exact Bool.false_ne_true),
        camelWords_of_not_boundary h hwords, ih, hwords]
      cases others with
      | nil => rfl
      | cons next others => simp only [Text.separated, List.intercalate_cons_cons, List.cons_append]
  | case3 t h =>
      cases t with
      | nil => rfl
      | cons a rest =>
          cases rest with
          | nil => rfl
          | cons b rest => exact absurd rfl (h a b rest)

end Naming

/-! ## entries -/

namespace Value

/-- The value that an entry of an order is carried as. -/
inductive CarriedAs : Value → Value → Prop where
  | word (t : Text) : CarriedAs (.str t) (.str t)
  | ascending {ms : Members} {field direction : Text}
      (field_eq : ms.lookup ("field" : Text) = some (.str field))
      (direction_eq : (ms.lookup ("direction" : Text)).getD (.str "asc") = .str direction)
      (asc : Text.lower direction = "asc") :
      CarriedAs (.obj ms)
        (.str (Text.upper (Text.separated "_" (Naming.camelWords field)) ++ "_ASC"))
  | descending {ms : Members} {field direction : Text}
      (field_eq : ms.lookup ("field" : Text) = some (.str field))
      (direction_eq : (ms.lookup ("direction" : Text)).getD (.str "asc") = .str direction)
      (desc : Text.lower direction = "desc") :
      CarriedAs (.obj ms)
        (.str (Text.upper (Text.separated "_" (Naming.camelWords field)) ++ "_DESC"))

/-- A value that is walked over for the entries of an order. -/
inductive HasItems : Value → Prop where
  | list (items : List Value) : HasItems (.arr items)
  | text (t : Text) : HasItems (.str t)
  | members (ms : Members) : HasItems (.obj ms)

/-- What can be walked over has items. -/
theorem hasItems_of_walk {v : Value} {items : List Value} (h : v.walk = .ok items) :
    v.HasItems := by
  cases v with
  | arr items => exact .list items
  | str t => exact .text t
  | obj ms => exact .members ms
  | _ => cases h

/-- What has no items cannot be walked over. -/
theorem walk_of_not_hasItems {v : Value} (h : ¬ v.HasItems) :
    v.walk = .error (.misfit .noItems) := by
  cases v with
  | arr items => exact absurd (.list items) h
  | str t => exact absurd (.text t) h
  | obj ms => exact absurd (.members ms) h
  | _ => rfl

end Value

namespace OrderEntry

/-- A direction is `asc` or `desc`, in any case. -/
theorem isDirection_iff {word : Text} :
    isDirection word = true ↔ Text.lower word = "asc" ∨ Text.lower word = "desc" := by
  simp only [isDirection, List.contains_iff_mem, List.mem_cons, List.not_mem_nil, or_false]

/-- A direction is written in capitals, in whichever case it was told. -/
theorem upper_direction {direction word : Text} (h : Text.lower direction = word)
    (hword : ∀ q ∈ word, q.IsSole) : Text.upper direction = Text.upper word := by
  rw [← h] at hword ⊢
  exact (Text.upper_lower hword).symm

/-- What is carried for an entry is what is read from it and written. -/
theorem carriedAs_of_value {v : Value} {entry : OrderEntry} {w : Value}
    (hread : OrderEntry.ofValue v = .ok entry) (hvalue : entry.value = .ok w) : v.CarriedAs w := by
  cases v with
  | str word =>
      cases hread
      cases hvalue
      exact .word word
  | obj ms =>
      cases hfield : ms.lookup ("field" : Text) with
      | none => simp [OrderEntry.ofValue, hfield] at hread
      | some told =>
          simp only [OrderEntry.ofValue, hfield, bind_eq_ok] at hread
          obtain ⟨direction, hdirection, hread⟩ := hread
          have hword : (ms.lookup ("direction" : Text)).getD (.str "asc") = .str direction := by
            cases hgiven : (ms.lookup ("direction" : Text)).getD (.str "asc") <;>
              simp_all [Value.letters]
          split at hread
          · rename_i hway
            cases hread
            cases told with
            | str field =>
                cases hvalue
                rw [Naming.orderWord, Naming.snake_eq_separated, List.append_assoc]
                rcases isDirection_iff.1 hway with hasc | hdesc
                · rw [upper_direction hasc (by decide)]
                  exact .ascending hfield hword hasc
                · rw [upper_direction hdesc (by decide)]
                  exact .descending hfield hword hdesc
            | _ => cases hvalue
          · cases hread
  | _ => cases hread

/-- Only an entry whose field is no text is read and cannot be written. -/
theorem exists_value_iff {v : Value} {entry : OrderEntry} (h : OrderEntry.ofValue v = .ok entry) :
    (∃ w, entry.value = .ok w) ↔ ¬ v.Unnamed := by
  rw [← value_breaksOff_iff h]
  constructor
  · rintro ⟨w, hw⟩
    rw [hw]
    exact not_meets_ok w
  · exact fun hbreak => entry.value_total.resolve_right hbreak

end OrderEntry

/-! ## what is walked over -/

/-- A text and an object tell an order, whatever they are: their items are texts. -/
theorem Value.exists_orders {v : Value} (h : (∃ t, v = .str t) ∨ ∃ ms, v = .obj ms) :
    ∃ entries, v.Orders entries := by
  have hwalk : ∃ items, (v.orElse (.arr [])).walk = .ok items ∧ ∀ i ∈ items, ∃ t, i = .str t := by
    by_cases hgiven : v.truthy = true
    · rw [orElse, if_pos hgiven]
      rcases h with ⟨t, rfl⟩ | ⟨ms, rfl⟩
      · exact ⟨_, rfl, List.forall_mem_map.2 fun c _ => ⟨[c], rfl⟩⟩
      · exact ⟨_, rfl, List.forall_mem_map.2 fun m _ => ⟨m.1, rfl⟩⟩
    · rw [orElse, if_neg hgiven]
      exact ⟨[], rfl, fun _ hi => absurd hi List.not_mem_nil⟩
  obtain ⟨items, hitems, htexts⟩ := hwalk
  obtain ⟨entries, hentries⟩ := exists_mapM_eq_ok.2 fun i hi => by
    obtain ⟨t, rfl⟩ := htexts i hi
    exact ⟨OrderEntry.verbatim t, (rfl : OrderEntry.ofValue (.str t) = _)⟩
  exact ⟨entries, items, hitems, hentries⟩

namespace RowOptions

variable {options : Value}

/-- An order that was read has items, if it counts as given. -/
theorem hasItems_of_ofValue (h : options.IsRecord) {o : RowOptions}
    (ho : ofValue options = .ok o)
    (hgiven : (options.spelt "orderBy" "order_by").truthy = true) :
    (options.spelt "orderBy" "order_by").HasItems := by
  obtain ⟨items, hwalk, _⟩ := (takes_of_ofValue h ho).2.order
  rw [Value.orElse, if_pos hgiven] at hwalk
  exact Value.hasItems_of_walk hwalk

/-- An order that counts as given and has no items is not refused. -/
theorem ofValue_of_not_hasItems (h : options.IsRecord)
    (hagree : ¬ options.Contradicts "limit" "first")
    (hgiven : (options.spelt "orderBy" "order_by").truthy = true)
    (hitems : ¬ (options.spelt "orderBy" "order_by").HasItems) :
    ofValue options = .error (.misfit .noItems) := by
  have horder : options.order = options.spelt "orderBy" "order_by" := if_pos hgiven
  rw [ofValue_eq h, if_neg hagree, horder, Value.walk_of_not_hasItems hitems]
  rfl

/-- A text or an object in place of a list is accepted. -/
theorem exists_ofValue_iff_of_text_or_members (h : options.IsRecord)
    (horder : (∃ t, options.spelt "orderBy" "order_by" = .str t) ∨
      ∃ ms, options.spelt "orderBy" "order_by" = .obj ms) :
    (∃ o, ofValue options = .ok o) ↔
      ¬ options.Contradicts "limit" "first" ∧ leftOver options.bagEntries = [] := by
  have hread := Value.exists_orders horder
  rw [exists_ofValue_iff h]
  exact ⟨fun hok => ⟨hok.1, hok.2.1⟩, fun hok => ⟨hok.1, hok.2, hread⟩⟩

end RowOptions

/-! ## the variable of an order -/

/-- A document carries the entries of an order: it comes with one value for each, in their
order, and there is a variable and an argument for them exactly if there are any. -/
structure BoundDocument.CarriesOrder (c : BoundDocument) (items : List Value) : Prop where
  valued : ∃ values, List.Forall₂ Value.CarriedAs items values ∧
    c.values.lookup ("orderBy" : Text) = if items.isEmpty then none else some (.arr values)
  declared : ("orderBy" : Text) ∈ c.document.definitions.map VariableDefinition.name ↔ items ≠ []
  taken : ("orderBy" : Text) ∈ c.document.root.arguments.map Argument.name ↔ items ≠ []

section

variable {registry : Registry} {tables : List Table} {table : Table} {spec : Option Spec}
  {o : RowOptions} {items : List Value}

/-- A query carries the order of its options, item by item. -/
theorem rowsQuery_carriesOrder (hitems : items.mapM OrderEntry.ofValue = .ok o.order)
    {c : BoundDocument} (h : rowsQuery registry tables table spec o = .ok c) :
    c.CarriesOrder items := by
  obtain ⟨values, hwords, hcarries⟩ := rowsQuery_carries h
  have hread := mapM_eq_ok.1 hitems
  have hempty : o.order.isEmpty = items.isEmpty := by
    generalize o.order = entries at hread ⊢
    cases hread <;> rfl
  have hslot : ((⟨"orderBy", .nonNull (.list (.nonNull (.named (Naming.orderByType table.name))))⟩,
      valueIf (!o.order.isEmpty) (.arr values)) : Slot) ∈ o.slots table values := by
    simp [RowOptions.slots]
  have hnames := o.nodup_slots table values
  have hdeclared : ("orderBy" : Text) ∈ c.document.definitions.map VariableDefinition.name ↔
      items ≠ [] := by
    rw [hcarries.name_mem_iff hnames hslot, isSome_valueIf, hempty]
    simp
  refine ⟨⟨values, ?_, ?_⟩, hdeclared, ?_⟩
  · exact forall₂_comp hread (mapM_eq_ok.1 hwords) fun _ _ _ => OrderEntry.carriedAs_of_value
  · rw [hcarries.valued, lookup_setSlots hnames hslot, hempty]
    cases items <;> rfl
  · rw [hcarries.declares.taken, ← hcarries.declares.declared, List.map_map]
    exact hdeclared

/-- An order can be written exactly if no item leaves its field without a name. -/
theorem exists_orderWords_iff (hitems : items.mapM OrderEntry.ofValue = .ok o.order) :
    (∃ words, o.orderWords = .ok words) ↔ ∀ i ∈ items, ¬ i.Unnamed := by
  rw [RowOptions.orderWords, exists_mapM_eq_ok]
  exact forall_mem_iff_of_forall₂ (mapM_eq_ok.1 hitems) fun v _ entry hv =>
    OrderEntry.exists_value_iff hv

end

/-! ## from the options to the document -/

/-- **Orders entry by entry**: an order that counts as given and is read is a list, a text
or an object; a text or an object is read whatever it is, and any other value breaks the
reading off instead of being refused.  The query carries the entries that were walked
over, each as the word that it is or as the words of its field and its direction.  It is
only kept from that by what keeps it from being answered, and by a field that is no
text. -/
theorem order_carried (registry : Registry) (tables : List Table) (table : Table) (ms : Members) :
    (∀ o, RowOptions.ofValue (.obj ms) = .ok o →
      ((Value.obj ms).spelt "orderBy" "order_by").truthy = true →
        ((Value.obj ms).spelt "orderBy" "order_by").HasItems) ∧
    (¬ (Value.obj ms).Contradicts "limit" "first" →
      ((Value.obj ms).spelt "orderBy" "order_by").truthy = true →
      ¬ ((Value.obj ms).spelt "orderBy" "order_by").HasItems →
        RowOptions.ofValue (.obj ms) = .error (.misfit .noItems)) ∧
    (((∃ t, (Value.obj ms).spelt "orderBy" "order_by" = .str t) ∨
        ∃ names, (Value.obj ms).spelt "orderBy" "order_by" = .obj names) →
      ((∃ o, RowOptions.ofValue (.obj ms) = .ok o) ↔
        ¬ (Value.obj ms).Contradicts "limit" "first" ∧
          RowOptions.leftOver (Value.obj ms).bagEntries = [])) ∧
    ∀ o, RowOptions.ofValue (.obj ms) = .ok o →
      ∃ items, (((Value.obj ms).spelt "orderBy" "order_by").orElse (.arr [])).walk = .ok items ∧
        (∀ spec c, rowsQuery registry tables table spec o = .ok c → c.CarriesOrder items) ∧
        ∀ spec, (∃ c, rowsQuery registry tables table spec o = .ok c) ↔
          o.check = .ok () ∧ WellTyped registry tables table spec ∧ ∀ i ∈ items, ¬ i.Unnamed := by
  have hrecord := Value.IsRecord.members ms
  refine ⟨fun o ho => RowOptions.hasItems_of_ofValue hrecord ho,
    RowOptions.ofValue_of_not_hasItems hrecord,
    RowOptions.exists_ofValue_iff_of_text_or_members hrecord, fun o ho => ?_⟩
  obtain ⟨items, hwalk, hitems⟩ := (RowOptions.takes_of_ofValue hrecord ho).2.order
  refine ⟨items, hwalk, fun spec c h => rowsQuery_carriesOrder hitems h, fun spec => ?_⟩
  rw [exists_rowsQuery_iff, exists_orderWords_iff hitems]

/-- An order by the time that is left and by a word of the backend. -/
def Circle.orderedPage : Members :=
  [("orderBy", .arr [.obj [("field", .str "leadTime"), ("direction", .str "Desc")],
    .str "ID_ASC", .obj [("field", .str "id")]])]

/-- Two columns and a word are carried in order; `true` is refused because it has no
items, and an object is accepted in place of a list. -/
theorem order_carried_circle :
    (∃ o c, RowOptions.ofValue (.obj Circle.orderedPage) = .ok o ∧
      rowsQuery .standard Circle.tables Circle.order none o = .ok c ∧
      c.CarriesOrder [.obj [("field", .str "leadTime"), ("direction", .str "Desc")],
        .str "ID_ASC", .obj [("field", .str "id")]]) ∧
    ((Value.obj Circle.orderedPage).spelt "orderBy" "order_by").HasItems ∧
    RowOptions.ofValue (.obj [("orderBy", .bool true)]) = .error (.misfit .noItems) ∧
    ∃ o, RowOptions.ofValue (.obj [("order_by", .obj [("id", .null)])]) = .ok o := by
  have hcarried := order_carried .standard Circle.tables Circle.order
  refine ⟨⟨_, _, rfl, rfl, ?_⟩, (hcarried Circle.orderedPage).1 _ rfl rfl, ?_, ?_⟩
  · obtain ⟨items, hwalk, hcarries, _⟩ := (hcarried Circle.orderedPage).2.2.2 _ rfl
    cases hwalk
    exact hcarries none _ rfl
  · exact (hcarried [("orderBy", .bool true)]).2.1 (by decide) rfl (fun h => nomatch h)
  · exact ((hcarried [("order_by", .obj [("id", .null)])]).2.2.1 (.inr ⟨_, rfl⟩)).2
      ⟨by decide, rfl⟩

/-- A text is accepted for an order, though it is no list. -/
theorem not_order_refused :
    ¬ ∀ (ms : Members) (o : RowOptions), RowOptions.ofValue (.obj ms) = .ok o →
      ((Value.obj ms).option "orderBy").truthy = true →
        ∃ items, (Value.obj ms).option "orderBy" = .arr items := by
  intro h
  obtain ⟨items, hitems⟩ := h [("orderBy", .str "NAME_ASC")] _ rfl rfl
  cases hitems

end GraphDoc
