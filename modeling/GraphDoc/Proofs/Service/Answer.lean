import GraphDoc.Proofs.Document.Variables
import GraphDoc.Proofs.Service.Misorder

/-!
# GraphDoc.Proofs.Service.Answer

An answer can carry what a request comes to, if it can carry the request.

* The message of a rejection has bytes (`Request.run_told`).
* A document, its variables and its hash can be carried
  (`Request.carried_documentBody`): the text of the document was hashed, so it
  has bytes, and the variables hold what the request holds.
-/

namespace GraphDoc

open Text Service

/-! ## refusals -/

/-- An error that is not answered, though every value has the shape in which it
is used. -/
def Error.Untold (plain : Prop) (e : Error) : Prop :=
  (∀ fault, e ≠ .misfit fault) ∧ e.Unanswered plain

variable {plain : Prop}

/-- What leaves nothing unanswered leaves nothing untold. -/
theorem Avoids.told {α : Type} {x : Except Error α} (h : Avoids (Error.Unanswered plain) x) :
    Avoids (Error.Untold plain) x :=
  h.mono fun _ he => he.2

/-- A misfit does not count as untold. -/
theorem not_untold_misfit (fault : Misfit) : ¬ Error.Untold plain (.misfit fault) :=
  fun h => h.1 fault rfl

/-- What is not provided for and told nevertheless is a misfit. -/
theorem Error.exists_misfit {e : Error} (h : ¬ e.Untold plain) (hr : e.isRejection = false) :
    ∃ fault, e = .misfit fault := by
  by_cases hmisfit : ∃ fault, e = .misfit fault
  · exact hmisfit
  · exact (h ⟨fun fault he => hmisfit ⟨fault, he⟩, .inl hr⟩).elim

/-- A rejection is told by a message that has bytes. -/
theorem Error.isEncodable_message {e : Error} (hr : e.isRejection = true) (hp : plain)
    (h : ¬ e.Untold plain) : e.message.isEncodable = true := by
  cases hm : e.message.isEncodable with
  | true => rfl
  | false =>
      have hfit : ∀ fault, e ≠ .misfit fault := by
        intro fault he
        rw [he] at hr
        cases hr
      exact (h ⟨hfit, .inr ⟨hp, hm⟩⟩).elim

/-- The direction of an entry, ascending where there is none. -/
theorem OrderEntry.carried_direction {ms : Members} (h : carriedMembers ms = true) :
    carried ((ms.lookup ("direction" : Text)).getD (.str "asc")) = true := by
  cases hd : ms.lookup ("direction" : Text) with
  | none => rfl
  | some direction => exact Value.carried_of_lookup h hd

/-- A direction that is none is told as it stands, and so is its field. -/
theorem OrderEntry.ofValue_told {v : Value} (h : plain → carried v = true) :
    Avoids (Error.Untold plain) (OrderEntry.ofValue v) := by
  have hrefused : Avoids (Error.Untold plain)
      (.error (.options (.orderEntry v)) : Except Error OrderEntry) :=
    (avoids_rejection rfl fun _ => by simp [Error.message, OptionsFault.message]).told
  cases v with
  | str word => exact avoids_ok _
  | obj ms =>
      simp only [carried_obj] at h
      cases hf : ms.lookup ("field" : Text) with
      | none =>
          simp only [OrderEntry.ofValue, hf]
          exact hrefused
      | some field =>
          simp only [OrderEntry.ofValue, hf]
          refine (Value.letters_avoids (not_untold_misfit _) _).bind fun direction hletters => ?_
          split
          · exact avoids_ok _
          · refine (avoids_rejection rfl fun hp => ?_).told
            have hfield := Value.isEncodable_text (Value.carried_of_lookup (h hp) hf)
            have hdirection := Value.isEncodable_letters (carried_direction (h hp)) hletters
            simp [Error.message, OptionsFault.message, hdirection, hfield]
  | _ => exact hrefused

/-- Reading options is told, if the values among them can be. -/
theorem RowOptions.ofValue_told {options : Value} (hr : options.IsRecord)
    (h : plain → carried options = true) :
    Avoids (Error.Untold plain) (RowOptions.ofValue options) := by
  have hrefused : ∀ fault : OptionsFault, (Error.options fault).message.isEncodable = true →
      Avoids (Error.Untold plain) (.error (.options fault) : Except Error RowOptions) :=
    fun _ hmessage => (avoids_rejection rfl fun _ => hmessage).told
  rw [ofValue_eq hr]
  split
  · exact hrefused _ (by simp [Error.message, OptionsFault.message])
  · refine (Value.walk_avoids (not_untold_misfit _) _).bind fun items hwalk => ?_
    have hitems : ∀ v ∈ items, plain → carried v = true := fun v hv hp =>
      Value.carried_walk (Value.carried_order (h hp)) hwalk v hv
    refine (Avoids.mapM fun v hv => OrderEntry.ofValue_told (hitems v hv)).bind fun order _ => ?_
    split
    · exact avoids_ok _
    · obtain ⟨keys, hkeys, _⟩ := exists_sortedKeys fun e he => mem_of_mem_leftOver he
      rw [hkeys]
      exact hrefused _ (by simp [Error.message, OptionsFault.message])

section

variable {tables : List Table} {table : Table}

/-- Writing a query on checked tables is told. -/
theorem rowsQuery_told (hts : ∀ t ∈ tables, t.Checked) (ht : table.Checked)
    {spec : Option Spec} (hs : Spec.Checked spec) (o : RowOptions) :
    Avoids (Error.Untold plain) (rowsQuery .standard tables table spec o) :=
  rowsQuery_avoids o.check_answered.told (selectionNodes_answered hts hs ht).told
    (o.orderWords_avoids (not_untold_misfit _))

/-- A request whose values have the shape in which they are used is answered or
rejected, with a message that has bytes if the request can be told. -/
theorem Request.run_told {r : Request} (hshape : r.InShape) (hcarried : plain → r.Carried)
    (hts : ∀ t ∈ tables, t.Checked) (operation : Operation) :
    Avoids (Error.Untold plain) (r.run operation tables) := by
  refine (tableNamed_answered fun hp => (hcarried hp).table).told.bind fun table hfound => ?_
  refine (Spec.ofValue_answered r.select).told.bind fun spec hselected => ?_
  have ht := hts table (mem_of_tableNamed hfound)
  have hs := (Spec.ofValue_sound hselected).2
  have hdocument : Avoids (Error.Untold plain) (r.document tables table spec operation) := by
    have hoptions := RowOptions.ofValue_told hshape.options fun hp => (hcarried hp).options
    by_cases hquery : operation = .query
    · subst hquery
      exact hoptions.bind fun o _ => rowsQuery_told hts ht hs o
    · by_cases hcount : operation = .count
      · subst hcount
        refine hoptions.bind fun o _ => ?_
        exact o.check_answered.told.bind fun _ _ => avoids_ok _
      · exact (document_answered hshape hcarried hts ht hs hquery hcount).told
  exact hdocument.bind fun c _ => c.digest_answered.told.bind fun digest _ => avoids_ok _

end

/-! ## variables -/

/-- A value that the variables of an operation hold under a name, and what the
request tells it by. -/
inductive Request.Binds (r : Request) (table : Table) : Operation → Text → Value → Prop where
  | option {operation : Operation} (reads : operation = .query ∨ operation = .count)
      (name key : String) : Binds r table operation name (r.options.option key)
  | order {o : RowOptions} {words : List Value} (given : RowOptions.ofValue r.options = .ok o)
      (written : o.orderWords = .ok words) : Binds r table .query "orderBy" (.arr words)
  | row : Binds r table .findOne "id" r.rowId
  | created {ms : Members} (given : r.values = .obj ms) :
      Binds r table .create "input" (.obj [(Naming.singular table.name, .obj ms)])
  | updated {ms : Members} (given : r.patch.orElse (.obj []) = .obj ms) :
      Binds r table .update "input" (.obj [("id", r.rowId), ("patch", .obj ms)])
  | deleted : Binds r table .delete "input" (.obj [("id", r.rowId)])

theorem mem_optionBinding {set : Bool} {name : Text} {type : TypeRef} {value : Value}
    {m : Text × Value} (h : m ∈ (optionBinding set name type value).map Binding.member) :
    m = (name, value) := by
  cases set with
  | false => cases h
  | true => simpa [optionBinding, Binding.member] using h

section

variable {r : Request} {tables : List Table} {table : Table} {operation : Operation}

/-- The filter is an option, in a query as in a count. -/
theorem Request.binds_filter (hshape : r.InShape) {o : RowOptions}
    (ho : RowOptions.ofValue r.options = .ok o) (reads : operation = .query ∨ operation = .count)
    {m : Text × Value} {type : TypeRef}
    (hm : m ∈ (optionBinding o.filter.truthy "filter" type o.filter).map Binding.member) :
    r.Binds table operation m.1 m.2 := by
  obtain ⟨_, _, items, order, _, _, rfl⟩ := (RowOptions.ofValue_eq_ok hshape.options).1 ho
  rw [mem_optionBinding hm]
  exact .option reads "filter" "where"

/-- Each variable of a query is an option of the request, or its order. -/
theorem Request.binds_query (hshape : r.InShape) {o : RowOptions}
    (ho : RowOptions.ofValue r.options = .ok o) {bindings : List Binding}
    (hb : rowBindings table o = .ok bindings) {m : Text × Value}
    (hm : m ∈ bindings.map Binding.member) : r.Binds table .query m.1 m.2 := by
  obtain ⟨words, hwords, hb⟩ := bind_eq_ok.1 hb
  rw [← pure_eq_ok.1 hb] at hm
  simp only [List.map_append, List.mem_append] at hm
  rcases hm with ((((hm | hm) | hm) | hm) | hm) | hm
  case inl.inr => exact binds_filter hshape ho (.inl rfl) hm
  case inr =>
    rw [mem_optionBinding hm]
    exact .order ho hwords
  all_goals
    obtain ⟨_, _, items, order, _, _, rfl⟩ := (RowOptions.ofValue_eq_ok hshape.options).1 ho
    rw [mem_optionBinding hm]
  case inl.inl.inl.inl.inl =>
    simp only [RowOptions.taken]
    split
    · exact .option (.inl rfl) "first" "first"
    · exact .option (.inl rfl) "first" "limit"
  case inl.inl.inl.inl.inr => exact .option (.inl rfl) "offset" "offset"
  case inl.inl.inl.inr => exact .option (.inl rfl) "after" "after"
  case inl.inl.inr => exact .option (.inl rfl) "before" "before"

/-- The variables of a creation are bound to its values. -/
theorem Request.binds_create (hshape : r.InShape) {bag : Members}
    (hbag : createBag table r.values = .ok bag) {m : Text × Value} (hm : m ∈ bag) :
    r.Binds table .create m.1 m.2 := by
  rcases createBag_eq_ok hbag with ⟨_, rfl⟩ | ⟨hgiven, ms, hms, rfl⟩
  · cases hm
  · rw [List.mem_singleton.1 hm]
    cases hv : r.values with
    | obj ms' =>
        rw [hv, Value.entries_obj, Except.ok.injEq] at hms
        exact .created (hms ▸ hv)
    | null =>
        rw [hv] at hgiven
        cases hgiven
    | _ =>
        have hrecord := hshape.values
        rw [hv] at hrecord
        cases hrecord

/-- The variables of an update are bound to its key and its patch. -/
theorem Request.binds_update (hshape : r.InShape) {bag : Members}
    (hbag : updateBag table r.rowId r.patch = .ok bag) {m : Text × Value} (hm : m ∈ bag) :
    r.Binds table .update m.1 m.2 := by
  rcases updateBag_eq_ok hbag with ⟨_, rfl⟩ | ⟨_, ms, hms, rfl⟩
  · cases hm
  · obtain ⟨ms', hgiven⟩ := hshape.patch.orElse
    rw [hgiven, Value.entries_obj, Except.ok.injEq] at hms
    rw [List.mem_singleton.1 hm]
    exact .updated (hms ▸ hgiven)

/-- The variables of a document hold what the request tells, each in its place. -/
theorem Request.binds_of_document (hshape : r.InShape) {spec : Option Spec} {c : BoundDocument}
    (h : r.document tables table spec operation = .ok c) {m : Text × Value} (hm : m ∈ c.values) :
    r.Binds table operation m.1 m.2 := by
  cases operation with
  | query =>
      obtain ⟨o, ho, h⟩ := bind_eq_ok.1 h
      obtain ⟨_, rows, bindings, _, hb, rfl⟩ := rowsQuery_eq_ok.1 h
      exact binds_query hshape ho hb hm
  | findOne =>
      obtain ⟨field, type, nodes, hfield, _, _, rfl⟩ := rowQuery_eq_ok.1 h
      cases (checkName_eq_ok_iff.1 hfield).1
      dsimp only at hm
      split at hm
      · cases hm
      · rw [List.mem_singleton.1 hm]
        exact .row
  | count =>
      obtain ⟨o, ho, h⟩ := bind_eq_ok.1 h
      obtain ⟨_, rfl⟩ := countQuery_eq_ok.1 h
      exact binds_filter hshape ho (.inr rfl) hm
  | create =>
      obtain ⟨selection, _, h⟩ := bind_eq_ok.1 h
      obtain ⟨payload, bag, _, hbag, rfl⟩ := createMutation_eq_ok.1 h
      exact binds_create hshape hbag hm
  | update =>
      obtain ⟨selection, _, h⟩ := bind_eq_ok.1 h
      obtain ⟨_, payload, bag, _, hbag, rfl⟩ := updateMutation_eq_ok.1 h
      exact binds_update hshape hbag hm
  | delete =>
      obtain ⟨selection, _, h⟩ := bind_eq_ok.1 h
      rw [← pure_eq_ok.1 h] at hm
      simp only [deleteMutation] at hm
      split at hm
      · cases hm
      · rw [List.mem_singleton.1 hm]
        exact .deleted

end

/-! ## variables that can be carried -/

/-- An answer can tell what an entry of an order holds. -/
def OrderEntry.Carried : OrderEntry → Prop
  | verbatim word => word.isEncodable = true
  | byField field direction => carried field = true ∧ direction.isEncodable = true

/-- An entry of an order that was read can be carried if its value can. -/
theorem OrderEntry.carried_of_ofValue {v : Value} {entry : OrderEntry} (h : carried v = true)
    (hread : OrderEntry.ofValue v = .ok entry) : entry.Carried := by
  cases v with
  | str t =>
      cases hread
      rwa [carried_str] at h
  | obj ms =>
      rw [carried_obj] at h
      cases hf : ms.lookup ("field" : Text) with
      | none => simp [OrderEntry.ofValue, hf] at hread
      | some field =>
          simp only [OrderEntry.ofValue, hf, bind_eq_ok] at hread
          obtain ⟨direction, hletters, hread⟩ := hread
          split at hread
          · cases hread
            exact ⟨Value.carried_of_lookup h hf,
              Value.isEncodable_letters (carried_direction h) hletters⟩
          · cases hread
  | _ => cases hread

theorem OrderEntry.Carried.value {entry : OrderEntry} (h : entry.Carried) {word : Value}
    (hword : entry.value = .ok word) : carried word = true := by
  cases entry with
  | verbatim t =>
      cases hword
      rwa [carried_str]
  | byField field direction =>
      cases field with
      | str name =>
          cases hword
          rw [carried_str]
          exact Naming.isEncodable_orderWord (carried_str name ▸ h.1) h.2
      | _ => cases hword

/-- The words of an order can be carried if the options can. -/
theorem RowOptions.carried_orderWords {options : Value} (hr : options.IsRecord)
    (h : carried options = true) {o : RowOptions} (ho : RowOptions.ofValue options = .ok o)
    {words : List Value} (hw : o.orderWords = .ok words) : carriedItems words = true := by
  obtain ⟨_, _, items, order, hwalk, hread, rfl⟩ := (ofValue_eq_ok hr).1 ho
  have hitems := Value.carried_walk (Value.carried_order h) hwalk
  have horder : ∀ entry ∈ order, OrderEntry.Carried entry :=
    forall_mem_of_forall₂ hread fun v hv entry hentry =>
      OrderEntry.carried_of_ofValue (hitems v hv) hentry
  rw [carriedItems_iff]
  exact forall_mem_of_forall₂ (mapM_eq_ok.1 hw) fun entry hentry word hword =>
    (horder entry hentry).value hword

/-- A variable can be carried if the request can. -/
theorem Request.Binds.carried {r : Request} {table : Table} {operation : Operation} {name : Text}
    {v : Value} (h : r.Binds table operation name v) (hshape : r.InShape) (hcarried : r.Carried)
    (ht : table.Checked) : name.isEncodable = true ∧ Service.carried v = true := by
  refine ⟨by cases h <;> exact isEncodable_ofString _, ?_⟩
  have hid := hcarried.rowId
  cases h with
  | option _ _ key => exact Value.carried_option hcarried.options key
  | order given written =>
      rw [carried_arr]
      exact RowOptions.carried_orderWords hshape.options hcarried.options given written
  | row => exact hid
  | created given =>
      have hms := hcarried.values
      rw [given, carried_obj] at hms
      simp [carriedMembers, Naming.isEncodable_singular ht.isEncodable_name, hms]
  | updated given =>
      have hms : Service.carried (r.patch.orElse (.obj [])) = true :=
        Value.carried_orElse hcarried.patch rfl
      rw [given, carried_obj] at hms
      simp [carriedMembers, hid, hms]
  | deleted => simp [carriedMembers, hid]

/-! ## documents -/

/-- What stands in a row of texts stands in the row. -/
theorem mem_separated {separator t : Text} {texts : List Text} (ht : t ∈ texts) {c : CodePoint}
    (hc : c ∈ t) : c ∈ separated separator texts := by
  induction texts with
  | nil => exact absurd ht List.not_mem_nil
  | cons first rest ih =>
      cases rest with
      | nil =>
          obtain rfl : t = first := by simpa using ht
          simpa [separated, List.intercalate] using hc
      | cons second others =>
          simp only [separated, List.intercalate_cons_cons, List.mem_append] at ih ⊢
          rcases List.mem_cons.1 ht with rfl | ht
          · exact .inl (.inl hc)
          · exact .inr (ih ht)

theorem mem_joined {separator t : Text} {texts : List Text} (ht : t ∈ texts) {c : CodePoint}
    (hc : c ∈ t) : c ∈ joined separator texts := by
  refine mem_separated (List.mem_filter.2 ⟨ht, ?_⟩) hc
  cases t with
  | nil => exact absurd hc List.not_mem_nil
  | cons d rest => rfl

/-- The name of a document stands in its text. -/
theorem Document.isEncodable_name {d : Document} (h : d.text.isEncodable = true) :
    d.name.isEncodable = true := by
  have hhead : d.head.isEncodable = true := by
    unfold text at h
    split at h
    · next hquery => rw [hquery]; rfl
    · rw [isEncodable_append, isEncodable_append, Bool.and_eq_true, Bool.and_eq_true] at h
      exact h.1.1
  rw [isEncodable_iff] at hhead ⊢
  intro c hc
  have hinner : c ∈ joined [] [d.name, definitionsText d.definitions] :=
    mem_joined List.mem_cons_self hc
  exact hhead c (mem_joined (List.mem_cons_of_mem _ List.mem_cons_self) hinner)

/-- The hash is there only where the text has bytes. -/
theorem BoundDocument.digest_eq_ok {c : BoundDocument} {digest : Text}
    (h : c.digest = .ok digest) : c.text.isEncodable = true ∧ digest.isEncodable = true := by
  unfold BoundDocument.digest at h
  cases hbytes : c.text.utf8 with
  | error gap => simp [hbytes] at h
  | ok bytes =>
      simp only [hbytes, Except.ok.injEq] at h
      rw [← h]
      exact ⟨isEncodable_of_utf8 hbytes, Sha256.isEncodable_digest bytes⟩

/-- **Answers are carried**: the answer to a request that can be carried can be
carried. -/
theorem Request.carried_documentBody {r : Request} (hshape : r.InShape) (hcarried : r.Carried)
    {tables : List Table} (hts : ∀ t ∈ tables, t.Checked) {operation : Operation} {a : Answer}
    (h : r.run operation tables = .ok a) : carried (documentBody a) = true := by
  obtain ⟨table, hfound, h⟩ := bind_eq_ok.1 h
  obtain ⟨spec, _, h⟩ := bind_eq_ok.1 h
  obtain ⟨c, hc, h⟩ := bind_eq_ok.1 h
  obtain ⟨digest, hdigest, h⟩ := bind_eq_ok.1 h
  obtain ⟨htext, hhash⟩ := BoundDocument.digest_eq_ok hdigest
  have hname : c.operationName.isEncodable = true := Document.isEncodable_name htext
  have ht := hts table (mem_of_tableNamed hfound)
  have hvalues : carriedMembers c.values = true := carriedMembers_iff.2 fun m hm =>
    (binds_of_document hshape hc hm).carried hshape hcarried ht
  rw [← pure_eq_ok.1 h]
  simp [documentBody, carriedMembers, hname, htext, hhash, hvalues]

end GraphDoc
