import GraphDoc.Proofs.Service.Refusal

/-!
# GraphDoc.Proofs.Service.Misorder

When a request breaks the work off instead of being refused.

The one part of a request whose shape is not looked at is the order of a query:
what has no items is walked over, and of an entry neither the direction nor the
field needs to be a text.  `Request.Misordered` says which requests come to such
a place, and `Request.run_breaksOff_iff` that no other request breaks the work
off.
-/

namespace GraphDoc

/-- An error that is no fault of the request, and so is not provided for. -/
def Error.BreaksOff (e : Error) : Prop := e.isRejection = false

/-- A rejection does not break the work off. -/
theorem not_breaksOff {α : Type} {e : Error} (h : e.isRejection = true) :
    ¬ Meets Error.BreaksOff (.error e : Except Error α) := by
  rw [meets_error, Error.BreaksOff, h]
  exact Bool.noConfusion

/-! ## orders -/

namespace Value

/-- A member that is there and is no text. -/
def TellsNoText (v : Value) (key : Text) : Prop :=
  ∃ told, v.member? key = some told ∧ ∀ t, told ≠ .str t

/-- An entry of an order that tells a field, and a direction that is no text. -/
def Undirected (entry : Value) : Prop :=
  (entry.member? "field").isSome = true ∧ entry.TellsNoText "direction"

/-- An entry of an order that tells a field that is no text. -/
def Unnamed (entry : Value) : Prop := entry.TellsNoText "field"

/-- An order that cannot be read and is not refused: it has no items to walk
over, or behind entries that can be read comes one without a direction. -/
inductive Unread (order : Value) : Prop where
  | noItems (items : ∀ entries, order.walk ≠ .ok entries)
  | undirected {entry : Value} {before behind : List Value}
      (items : order.walk = .ok (before ++ entry :: behind))
      (readable : ∀ e ∈ before, ∃ o, OrderEntry.ofValue e = .ok o)
      (entry : entry.Undirected)

end Value

/-- The order of a request breaks the work off: when a query or a count reads
it, or when a query that nothing keeps from being answered writes its
entries. -/
inductive Request.Misordered (r : Request) (tables : List Table) : Operation → Prop where
  | unread {operation : Operation} {table : Table} {spec : Option Spec}
      (reads : operation = .query ∨ operation = .count)
      (found : tableNamed tables r.table = .ok table)
      (selected : Spec.ofValue r.select = .ok spec)
      (limits : ¬ r.options.Contradicts "limit" "first") (order : r.options.order.Unread) :
      Misordered r tables operation
  | unnamed {table : Table} {spec : Option Spec} {o : RowOptions} {entries : List Value}
      (found : tableNamed tables r.table = .ok table)
      (selected : Spec.ofValue r.select = .ok spec)
      (given : RowOptions.ofValue r.options = .ok o) (checked : o.check = .ok ())
      (fits : WellTyped .standard tables table spec)
      (order : r.options.order.walk = .ok entries) (entry : ∃ e ∈ entries, e.Unnamed) :
      Misordered r tables .query

/-! ## reading an order -/

theorem Value.walk_breaksOff_iff {v : Value} :
    Meets Error.BreaksOff v.walk ↔ ∀ items, v.walk ≠ .ok items := by
  cases v <;> simp [walk, Error.BreaksOff, Error.isRejection, Error.isRefusal]

theorem Value.letters_breaksOff_iff {v : Value} :
    Meets Error.BreaksOff v.letters ↔ ∀ t, v ≠ .str t := by
  cases v <;> simp [letters, Error.BreaksOff, Error.isRejection, Error.isRefusal]

/-- Reading an entry of an order breaks off exactly if its direction is no text. -/
theorem OrderEntry.ofValue_breaksOff_iff {v : Value} :
    Meets Error.BreaksOff (OrderEntry.ofValue v) ↔ v.Undirected := by
  cases v with
  | obj ms =>
      cases hf : ms.lookup ("field" : Text) with
      | none =>
          simp [OrderEntry.ofValue, Value.Undirected, Value.member?, hf, Error.BreaksOff,
            Error.isRejection, Error.isRefusal]
      | some field =>
          have hread : ∀ direction : Text, ¬ Meets Error.BreaksOff
              (if isDirection direction then pure (OrderEntry.byField field direction)
              else throw (.options (.orderDirection direction field))) := by
            intro direction
            split
            · exact not_meets_ok _
            · exact not_breaksOff rfl
          simp only [OrderEntry.ofValue, Value.Undirected, Value.TellsNoText, Value.member?, hf,
            meets_bind, hread, and_false, exists_false, or_false, Value.letters_breaksOff_iff]
          cases ms.lookup ("direction" : Text) <;> simp
  | _ =>
      simp [OrderEntry.ofValue, Value.Undirected, Value.member?, Error.BreaksOff,
        Error.isRejection, Error.isRefusal]

/-- Reading options breaks off exactly if their order cannot be read. -/
theorem RowOptions.ofValue_breaksOff_iff {options : Value} (h : options.IsRecord) :
    Meets Error.BreaksOff (RowOptions.ofValue options) ↔
      ¬ options.Contradicts "limit" "first" ∧ options.order.Unread := by
  have hleft : ∀ order, ¬ Meets Error.BreaksOff
      (if (leftOver options.bagEntries).isEmpty then .ok (taken options order)
      else do
        let keys ← sortedKeys (leftOver options.bagEntries)
        .error (.options (.unknownQueryOptions keys)) : Except Error RowOptions) := by
    intro order
    split
    · exact not_meets_ok _
    · obtain ⟨keys, hkeys, _⟩ := exists_sortedKeys fun e he => mem_of_mem_leftOver he
      rw [hkeys]
      exact not_breaksOff rfl
  rw [ofValue_eq h]
  by_cases hcontradicts : options.Contradicts "limit" "first"
  · rw [if_pos hcontradicts]
    exact iff_of_false (not_breaksOff rfl) fun h => h.1 hcontradicts
  · rw [if_neg hcontradicts]
    simp only [hcontradicts, not_false_eq_true, true_and, meets_bind, hleft, and_false,
      exists_false, or_false, meets_mapM, OrderEntry.ofValue_breaksOff_iff,
      Value.walk_breaksOff_iff]
    constructor
    · rintro (hitems | ⟨_, hwalk, before, entry, behind, rfl, hread, hentry⟩)
      · exact .noItems hitems
      · exact .undirected hwalk hread hentry
    · intro hunread
      cases hunread with
      | noItems hitems => exact .inl hitems
      | undirected hwalk hread hentry =>
          exact .inr ⟨_, hwalk, _, _, _, rfl, hread, hentry⟩

/-! ## writing an order -/

/-- An entry is written unless its field is no text. -/
theorem OrderEntry.value_breaksOff_iff {v : Value} {entry : OrderEntry}
    (h : OrderEntry.ofValue v = .ok entry) : Meets Error.BreaksOff entry.value ↔ v.Unnamed := by
  cases v with
  | str word =>
      cases h
      simp [value, Value.Unnamed, Value.TellsNoText, Value.member?]
  | obj ms =>
      cases hf : ms.lookup ("field" : Text) with
      | none => simp [OrderEntry.ofValue, hf] at h
      | some field =>
          simp only [OrderEntry.ofValue, hf, bind_eq_ok] at h
          obtain ⟨direction, _, h⟩ := h
          split at h
          · cases h
            have hunnamed : (Value.obj ms).Unnamed ↔ ∀ t, field ≠ .str t := by
              simp [Value.Unnamed, Value.TellsNoText, Value.member?, hf]
            rw [hunnamed]
            cases field <;>
              simp [value, orderWordOf, Value.letters, Error.BreaksOff, Error.isRejection,
                Error.isRefusal, Except.map]
          · cases h
  | _ => cases h

/-- There is no third way. -/
theorem OrderEntry.value_total (entry : OrderEntry) :
    (∃ word, entry.value = .ok word) ∨ Meets Error.BreaksOff entry.value := by
  cases entry with
  | verbatim word => exact .inl ⟨_, rfl⟩
  | byField field direction =>
      cases field with
      | str name => exact .inl ⟨_, rfl⟩
      | _ => exact .inr ⟨_, rfl, rfl⟩

/-- Writing an order breaks off exactly if an entry leaves its field without a name. -/
theorem RowOptions.orderWords_breaksOff_iff {options : Value} (h : options.IsRecord)
    {o : RowOptions} (ho : RowOptions.ofValue options = .ok o) :
    Meets Error.BreaksOff o.orderWords ↔
      ∃ entries, options.order.walk = .ok entries ∧ ∃ e ∈ entries, e.Unnamed := by
  obtain ⟨_, _, entries, order, hwalk, hread, ho⟩ := (ofValue_eq_ok h).1 ho
  have horder : o.order = order := by rw [ho, taken]
  rw [orderWords, horder, meets_mapM_of_total fun entry _ => entry.value_total,
    exists_mem_iff_of_forall₂ hread fun v _ entry hv => OrderEntry.value_breaksOff_iff hv]
  constructor
  · intro hunnamed
    exact ⟨entries, hwalk, hunnamed⟩
  · rintro ⟨entries', hwalk', hunnamed⟩
    rw [ok_unique hwalk hwalk']
    exact hunnamed

/-! ## requests -/

/-- What is always answered never breaks the work off. -/
theorem Avoids.not_breaksOff {α : Type} {x : Except Error α}
    (h : Avoids (Error.Unanswered False) x) : ¬ Meets Error.BreaksOff x :=
  (h.mono fun _ he => .inl he).not_meets

section

variable {tables : List Table} {table : Table}

theorem mem_of_tableNamed {key : Key} (h : tableNamed tables key = .ok table) :
    table ∈ tables := by
  unfold tableNamed at h
  cases hfound : key.name?.bind (tableNamed? tables) with
  | none => simp [hfound] at h
  | some t =>
      obtain ⟨name, _, hname⟩ := Option.bind_eq_some_iff.1 hfound
      simp only [hfound, Except.ok.injEq] at h
      rw [← h]
      exact (mem_of_tableNamed? hname).1

/-- A query breaks the work off over its order, and only if nothing else keeps
it from being answered. -/
theorem rowsQuery_breaksOff_iff (hts : ∀ t ∈ tables, t.Checked) (ht : table.Checked)
    {spec : Option Spec} (hs : Spec.Checked spec) (o : RowOptions) :
    Meets Error.BreaksOff (rowsQuery .standard tables table spec o) ↔
      o.check = .ok () ∧ WellTyped .standard tables table spec ∧
        Meets Error.BreaksOff o.orderWords := by
  have hcheck : ¬ Meets Error.BreaksOff o.check := o.check_answered.not_breaksOff
  have hnodes : ¬ Meets Error.BreaksOff (selectionNodes .standard tables false table spec) :=
    (selectionNodes_answered hts hs ht).not_breaksOff
  simp only [rowsQuery, rowBindings, meets_bind, hcheck, hnodes, not_meets_pure, and_false,
    exists_false, or_false, false_or, ← exists_selectionNodes_iff]
  constructor
  · rintro ⟨_, hok, rows, hrows, horder⟩
    exact ⟨hok, ⟨rows, hrows⟩, horder⟩
  · rintro ⟨hok, ⟨rows, hrows⟩, horder⟩
    exact ⟨(), hok, rows, hrows, horder⟩

/-- No count breaks off. -/
theorem countQuery_not_breaksOff (o : RowOptions) :
    ¬ Meets Error.BreaksOff (countQuery table o) := by
  have hcheck : ¬ Meets Error.BreaksOff o.check := o.check_answered.not_breaksOff
  simp only [countQuery, meets_bind, hcheck, not_meets_pure, and_false, exists_false, or_false,
    not_false_eq_true]

/-- The document of a request breaks the work off over the order. -/
theorem Request.document_breaksOff_iff {r : Request} (hshape : r.InShape)
    (hts : ∀ t ∈ tables, t.Checked) (ht : table.Checked) {spec : Option Spec}
    (hs : Spec.Checked spec) (operation : Operation) :
    Meets Error.BreaksOff (r.document tables table spec operation) ↔
      ((operation = .query ∨ operation = .count) ∧ ¬ r.options.Contradicts "limit" "first" ∧
        r.options.order.Unread) ∨
      (operation = .query ∧ ∃ o, RowOptions.ofValue r.options = .ok o ∧ o.check = .ok () ∧
        WellTyped .standard tables table spec ∧
          ∃ entries, r.options.order.walk = .ok entries ∧ ∃ e ∈ entries, e.Unnamed) := by
  have hother : operation ≠ .query → operation ≠ .count →
      ¬ Meets Error.BreaksOff (r.document tables table spec operation) := fun hquery hcount =>
    (document_answered hshape False.elim hts ht hs hquery hcount).not_breaksOff
  have hread := RowOptions.ofValue_breaksOff_iff hshape.options
  cases operation with
  | query =>
      simp only [document, meets_bind, hread, rowsQuery_breaksOff_iff hts ht hs, true_or, true_and]
      refine or_congr_right (exists_congr fun o => and_congr_right fun ho => ?_)
      rw [RowOptions.orderWords_breaksOff_iff hshape.options ho]
  | count =>
      simp [document, meets_bind, hread, countQuery_not_breaksOff]
  | _ => simpa using hother Operation.noConfusion Operation.noConfusion

/-- **What breaks off**: on checked tables a request in shape is answered or
refused unless its order breaks the work off. -/
theorem Request.run_breaksOff_iff {r : Request} (hshape : r.InShape)
    (hts : ∀ t ∈ tables, t.Checked) (operation : Operation) :
    Meets Error.BreaksOff (r.run operation tables) ↔ r.Misordered tables operation := by
  have htable : ¬ Meets Error.BreaksOff (tableNamed tables r.table) :=
    (tableNamed_answered False.elim).not_breaksOff
  have hspec : ¬ Meets Error.BreaksOff (Spec.ofValue r.select) :=
    (Spec.ofValue_answered r.select).not_breaksOff
  have hdigest : ∀ c : BoundDocument, ¬ Meets Error.BreaksOff c.digest := fun c =>
    c.digest_answered.not_breaksOff
  have hdocument : ∀ table spec, tableNamed tables r.table = .ok table →
      Spec.ofValue r.select = .ok spec → _ := fun table spec hfound hselected =>
    document_breaksOff_iff hshape hts (hts table (mem_of_tableNamed hfound))
      (Spec.ofValue_sound hselected).2 operation
  simp only [run, meets_bind, htable, hspec, hdigest, not_meets_pure, and_false, exists_false,
    or_false, false_or]
  constructor
  · rintro ⟨table, hfound, spec, hselected, hbreak⟩
    rcases (hdocument table spec hfound hselected).1 hbreak with
      ⟨hreads, hlimits, horder⟩ | ⟨rfl, o, hgiven, hchecked, hfits, entries, hwalk, hentry⟩
    · exact .unread hreads hfound hselected hlimits horder
    · exact .unnamed hfound hselected hgiven hchecked hfits hwalk hentry
  · intro hmisordered
    cases hmisordered with
    | @unread _ table spec hreads hfound hselected hlimits horder =>
        refine ⟨table, hfound, spec, hselected, (hdocument table spec hfound hselected).2 ?_⟩
        exact .inl ⟨hreads, hlimits, horder⟩
    | @unnamed table spec o entries hfound hselected hgiven hchecked hfits hwalk hentry =>
        refine ⟨table, hfound, spec, hselected, (hdocument table spec hfound hselected).2 ?_⟩
        exact .inr ⟨rfl, o, hgiven, hchecked, hfits, entries, hwalk, hentry⟩

end

end GraphDoc
