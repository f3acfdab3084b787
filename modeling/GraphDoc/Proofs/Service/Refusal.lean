import GraphDoc.Proofs.Document.Shape
import GraphDoc.Proofs.Failures
import GraphDoc.Proofs.Options.Spellings
import GraphDoc.Proofs.Selection.RoundTrip
import GraphDoc.Proofs.Service.Carried

/-!
# GraphDoc.Proofs.Service.Refusal

Which errors of a request are answered.

An error is `Unanswered` if it is no fault of the request, or if its message has
no UTF-8 bytes.  Everything but the order of a query avoids such errors, on checked
tables and for a request in shape: reading selections
(`Spec.ofValue_answered`), finding fields (`selectionNodes_answered`), and the
documents of the operations that take no order (`rowQuery_answered`,
`createMutation_answered`, `updateMutation_answered`).

A name goes into a message as it stands only where the request names something
that is not there; there it matters that texts are `plain`, that is, have bytes
themselves.
-/

namespace GraphDoc

open Text Service

/-- Whether a cause lies in the request: a refusal that is not about a file. -/
def Error.isRejection : Error → Bool
  | .file _ _ => false
  | e => e.isRefusal

/-- An error that is no rejection or, where texts are `plain`, has a message
without bytes. -/
def Error.Unanswered (plain : Prop) (e : Error) : Prop :=
  e.isRejection = false ∨ plain ∧ e.message.isEncodable = false

variable {plain : Prop}

theorem not_unanswered {e : Error} (hr : e.isRejection = true)
    (hm : plain → e.message.isEncodable = true) : ¬ e.Unanswered plain := by
  intro h
  rcases h with h | ⟨hplain, h⟩
  · rw [hr] at h
    cases h
  · rw [hm hplain] at h
    cases h

/-- A rejection whose message has bytes. -/
theorem avoids_rejection {α : Type} {e : Error} (hr : e.isRejection = true)
    (hm : plain → e.message.isEncodable = true) :
    Avoids (Error.Unanswered plain) (.error e : Except Error α) :=
  avoids_error (not_unanswered hr hm)

/-! ## names and selections -/

/-- Checking a name is answered. -/
theorem checkName_answered {kind : Text} (hk : kind.isEncodable = true) (given : Value) :
    Avoids (Error.Unanswered plain) (checkName kind given) :=
  checkName_avoids (not_unanswered rfl fun _ => by simp [Error.message, hk])

/-- A path has bytes if its names have. -/
theorem isEncodable_below {path key : Text} (hp : path.isEncodable = true)
    (hk : key.isEncodable = true) : (below path key).isEncodable = true := by
  unfold below
  split <;> simp [hp, hk]

namespace Spec

theorem entry_answered {path : Text} (hp : path.isEncodable = true) (v : Value) :
    Avoids (Error.Unanswered plain)
      (.error (.selection (.entry path v)) : Except Error (Option Selection)) :=
  avoids_rejection rfl fun _ => by simp [Error.message, SelectionFault.message, hp]

theorem noMapping_answered {α : Type} {path : Text} (hp : path.isEncodable = true) (v : Value) :
    Avoids (Error.Unanswered plain)
      (.error (.selection (.noMapping path v)) : Except Error α) := by
  refine avoids_rejection rfl fun _ => ?_
  have hkind : v.kind.isEncodable = true := by cases v <;> exact isEncodable_ofString _
  simp only [Error.message, SelectionFault.message]
  split <;> simp [hp, hkind]

mutual
/-- A path in a message is made of names that have passed their check. -/
theorem ofMembers_answered {path : Text} (hp : path.isEncodable = true) :
    (ms : List (Text × Value)) → Avoids (Error.Unanswered plain) (ofMembers path ms)
  | [] => by
      rw [ofMembers]
      exact avoids_ok []
  | (key, v) :: rest => by
      rw [ofMembers]
      refine (checkName_answered rfl _).bind fun name hname => ?_
      have hkey := Name.isEncodable_of_accepted (checkName_eq_ok_iff.1 hname).2
      rw [← Value.str.inj (checkName_eq_ok_iff.1 hname).1] at hkey
      refine (ofEntry_answered (isEncodable_below hp hkey) v).bind fun first _ => ?_
      refine (ofMembers_answered hp rest).bind fun others _ => ?_
      cases first <;> exact avoids_ok _

/-- Reading an entry is answered. -/
theorem ofEntry_answered {path : Text} (hp : path.isEncodable = true) :
    (v : Value) → Avoids (Error.Unanswered plain) (ofEntry path v)
  | .bool b => by
      rw [ofEntry]
      exact avoids_ok _
  | .obj [(key, inner)] => by
      rw [ofEntry]
      split
      · exact ofSelect_answered hp inner
      · exact entry_answered hp _
  | .obj [] => entry_answered hp _
  | .obj (_ :: _ :: _) => entry_answered hp _
  | .null => entry_answered hp _
  | .missing => entry_answered hp _
  | .int _ => entry_answered hp _
  | .float _ => entry_answered hp _
  | .str _ => entry_answered hp _
  | .arr _ => entry_answered hp _

/-- Reading a selection below an entry is answered. -/
theorem ofSelect_answered {path : Text} (hp : path.isEncodable = true) :
    (v : Value) → Avoids (Error.Unanswered plain) (ofSelect path v)
  | .null => by
      rw [ofSelect]
      exact avoids_ok _
  | .obj ms => by
      rw [ofSelect]
      exact (ofMembers_answered hp ms).bind fun entries _ => avoids_ok _
  | .missing => noMapping_answered hp _
  | .bool _ => noMapping_answered hp _
  | .int _ => noMapping_answered hp _
  | .float _ => noMapping_answered hp _
  | .str _ => noMapping_answered hp _
  | .arr _ => noMapping_answered hp _
end

/-- Reading a selection is answered. -/
theorem ofValue_answered (v : Value) : Avoids (Error.Unanswered plain) (ofValue v) := by
  cases v with
  | null => exact avoids_ok none
  | obj ms => exact (ofMembers_answered rfl ms).bind fun entries _ => avoids_ok _
  | _ => exact noMapping_answered rfl _

end Spec

/-! ## fields -/

section

variable {registry : Registry} {tables : List Table} {table : Table}

theorem Table.Checked.isEncodable_name (h : table.Checked) : table.name.isEncodable = true :=
  Name.isEncodable_of_accepted h.1

theorem Spec.Checked.isEncodable_key {entries : Spec} (h : Spec.Checked (some entries))
    {e : Key × Selection} (he : e ∈ entries) : e.1.text.isEncodable = true := by
  cases h with
  | given names _ =>
      obtain ⟨name, hname, haccepted⟩ := names e he
      rw [hname]
      exact Name.isEncodable_of_accepted haccepted

theorem Spec.Checked.behind {entries : Spec} (h : Spec.Checked (some entries))
    {e : Key × Selection} (he : e ∈ entries) : Spec.Checked e.2.inner := by
  cases h with
  | given _ behind => exact behind e he

/-- On checked tables, and with checked names in the selection, every message of the
walk has bytes: the texts in it are names. -/
theorem harmless_answered (hts : ∀ t ∈ tables, t.Checked) :
    Harmless (Error.Unanswered plain) tables fun t s => t.Checked ∧ Spec.Checked s where
  empty h := not_unanswered rfl fun _ => by
    simp [Error.message, SelectionFault.message, h.1.isEncodable_name]
  unsupported h f hf := by
    have hname := Name.isEncodable_of_accepted (h.1.2.1 f hf).1
    have htype := Name.isEncodable_of_accepted (h.1.2.1 f hf).2
    exact not_unanswered rfl fun _ => by
      simp [Error.message, h.1.isEncodable_name, hname, htype]
  unknown h e he := by
    have hkey := h.2.isEncodable_key he
    exact not_unanswered rfl fun _ => by simp [Error.message, h.1.isEncodable_name, hkey]
  nested h e he := by
    have hkey := h.2.isEncodable_key he
    exact not_unanswered rfl fun _ => by simp [Error.message, h.1.isEncodable_name, hkey]
  dangling h r hr := by
    have hfield := Name.isEncodable_of_accepted (h.1.2.2 r hr).1
    have htarget := Name.isEncodable_of_accepted (h.1.2.2 r hr).2
    intro e he
    rw [(Relation.resolve_eq_error.1 he).2]
    exact not_unanswered rfl fun _ => by
      simp [Error.message, h.1.isEncodable_name, hfield, htarget]
  next h he _ target := ⟨hts _ (Relation.mem_of_resolve target), h.2.behind he⟩

/-- Requesting a checked selection of checked tables is answered. -/
theorem selectionNodes_answered (hts : ∀ t ∈ tables, t.Checked) {spec : Option Spec}
    (hs : Spec.Checked spec) (ht : table.Checked) :
    Avoids (Error.Unanswered plain) (selectionNodes registry tables false table spec) :=
  selectionNodes_avoids (harmless_answered hts) ⟨ht, hs⟩

/-- What a mutation answers with is checked if its selection is. -/
theorem Spec.Checked.payload {spec : Option Spec} (h : Spec.Checked spec) :
    Spec.Checked (payloadSpec table spec) := by
  cases hp : payloadSpec table spec with
  | none => exact .absent
  | some entries =>
      cases h with
      | absent => simp [payloadSpec] at hp
      | @given given names behind =>
          have hsub : ∀ e ∈ entries, e ∈ given := by
            intro e he
            simp only [payloadSpec, Option.map_some] at hp
            cases hf : given.filter fun e => table.isPlain e.1 with
            | nil => simp [hf] at hp
            | cons first rest =>
                rw [hf] at hp
                cases hp
                rw [← hf] at he
                exact (List.mem_filter.1 he).1
          exact .given (fun e he => names e (hsub e he)) fun e he => behind e (hsub e he)

/-- Settling what a mutation answers with is answered. -/
theorem rowPayload_answered (hts : ∀ t ∈ tables, t.Checked) {spec : Option Spec}
    (hs : Spec.Checked spec) (ht : table.Checked) :
    Avoids (Error.Unanswered plain) (rowPayload registry tables table spec) := by
  unfold rowPayload
  rw [selectionNodes_payload]
  exact (selectionNodes_answered hts hs.payload ht).bind fun nodes _ => avoids_ok _

/-! ## operations without an order -/

/-- A find-one on checked tables is answered. -/
theorem rowQuery_answered (hts : ∀ t ∈ tables, t.Checked) {spec : Option Spec}
    (hs : Spec.Checked spec) (ht : table.Checked) (keyField keyType keyValue : Value) :
    Avoids (Error.Unanswered plain)
      (rowQuery registry tables table spec keyField keyType keyValue) :=
  rowQuery_avoids (checkName_answered rfl keyField) (checkName_answered rfl keyType)
    (selectionNodes_answered hts hs ht) keyValue

/-- A field that cannot be written is answered. -/
theorem checkWritable_answered (ht : table.Checked) {t : Text}
    (hplain : plain → t.isEncodable = true) :
    Avoids (Error.Unanswered plain) (checkWritable table (.str t)) := by
  have hkey : (Value.str t).toKey = .ok (.name t) := rfl
  unfold checkWritable
  rw [hkey]
  refine (avoids_ok _).bind fun key h => ?_
  cases h
  dsimp only
  split
  · exact avoids_ok ()
  · exact avoids_rejection rfl fun hp => by
      simp [Error.message, ht.isEncodable_name, Key.text, Key.value, Value.text, hplain hp]

/-- The values of an object go under its names, which are texts. -/
theorem writtenMembers_answered (ht : table.Checked) {ms : Members}
    (hplain : plain → carried (.obj ms) = true) :
    Avoids (Error.Unanswered plain) (writtenMembers table (.obj ms)) := by
  refine (avoids_ok _).bind fun names hnames => ?_
  cases hnames
  refine (Avoids.mapM fun v hv => ?_).bind fun _ _ => ?_
  · obtain ⟨m, hm, hv⟩ := List.mem_map.1 hv
    rw [← hv]
    refine checkWritable_answered ht fun hp => ?_
    rw [carried_obj, carriedMembers_iff] at hplain
    exact (hplain hp m hm).1
  · exact (avoids_ok _).bind fun entries _ => avoids_ok _

/-- The values of a creation are answered. -/
theorem createBag_answered (ht : table.Checked) {values : Value} (hv : values.IsRecord)
    (hplain : plain → carried values = true) :
    Avoids (Error.Unanswered plain) (createBag table values) := by
  cases hv with
  | absent => exact avoids_ok []
  | members ms => exact (writtenMembers_answered ht hplain).bind fun _ _ => avoids_ok _

/-- The patch of an update is answered. -/
theorem updateBag_answered (ht : table.Checked) (rowId : Value) {patch : Value}
    (hv : patch.IsRecord) (hplain : plain → carried patch = true) :
    Avoids (Error.Unanswered plain) (updateBag table rowId patch) := by
  have hgiven : plain → carried (patch.orElse (.obj [])) = true := fun hp =>
    Value.carried_orElse (hplain hp) rfl
  obtain ⟨ms, hms⟩ := hv.orElse
  unfold updateBag
  rw [hms] at hgiven ⊢
  split
  · exact avoids_ok []
  · exact (writtenMembers_answered ht hgiven).bind fun _ _ => avoids_ok _

/-- A creation on checked tables is answered. -/
theorem createMutation_answered (hts : ∀ t ∈ tables, t.Checked) {spec : Option Spec}
    (hs : Spec.Checked spec) (ht : table.Checked) {values : Value} (hv : values.IsRecord)
    (hplain : plain → carried values = true) :
    Avoids (Error.Unanswered plain) (createMutation registry tables table spec values) := by
  rw [createMutation_eq]
  refine (rowPayload_answered hts hs ht).bind fun payload _ => ?_
  exact (createBag_answered ht hv hplain).bind fun bag _ => avoids_ok _

/-- An update on checked tables is answered. -/
theorem updateMutation_answered (hts : ∀ t ∈ tables, t.Checked) {spec : Option Spec}
    (hs : Spec.Checked spec) (ht : table.Checked) (rowId : Value) {patch : Value}
    (hv : patch.IsRecord) (hplain : plain → carried patch = true) :
    Avoids (Error.Unanswered plain) (updateMutation registry tables table spec rowId patch) := by
  rw [updateMutation_eq]
  split
  · exact avoids_rejection rfl fun _ => by
      simp [Error.message, OptionsFault.message, ht.isEncodable_name]
  · refine (rowPayload_answered hts hs ht).bind fun payload _ => ?_
    exact (updateBag_answered ht rowId hv hplain).bind fun bag _ => avoids_ok _

/-! ## options -/

theorem RowOptions.check_answered (o : RowOptions) : Avoids (Error.Unanswered plain) o.check :=
  o.check_avoids
    (not_unanswered rfl fun _ => by simp [Error.message, OptionsFault.message])
    fun _ _ => not_unanswered rfl fun _ => by simp [Error.message, OptionsFault.message]

/-- The options of a mutation are answered. -/
theorem payloadOfOptions_answered {options : Value} (h : options.IsRecord) :
    Avoids (Error.Unanswered plain) (payloadOfOptions options) := by
  rw [payloadOfOptions_eq_ofEntries h]
  unfold payloadOfEntries
  dsimp only
  split
  · obtain ⟨keys, hkeys, _⟩ := exists_sortedKeys fun e he => mem_of_mem_withoutOption he
    rw [hkeys]
    exact avoids_rejection rfl fun _ => by simp [Error.message, OptionsFault.message]
  · exact Spec.ofValue_answered _

/-! ## requests -/

/-- A table that is not there is answered, if its name has bytes. -/
theorem tableNamed_answered {key : Key} (h : plain → key.text.isEncodable = true) :
    Avoids (Error.Unanswered plain) (tableNamed tables key) := by
  unfold tableNamed
  split
  · exact avoids_ok _
  · exact avoids_rejection rfl fun hp => by simp [Error.message, h hp]

theorem payloadSelection_answered {options : Value} (h : options.IsRecord) (spec : Option Spec) :
    Avoids (Error.Unanswered plain) (payloadSelection spec options) := by
  refine (payloadOfOptions_answered h).bind fun fromOptions _ => ?_
  cases spec <;> exact avoids_ok _

/-- A selection among options is checked once it was read. -/
theorem checked_of_payloadOfOptions {options : Value} {spec : Option Spec}
    (h : payloadOfOptions options = .ok spec) : Spec.Checked spec := by
  unfold payloadOfOptions at h
  split at h
  · obtain ⟨entries, _, h⟩ := bind_eq_ok.1 h
    unfold payloadOfEntries at h
    dsimp only at h
    split at h
    · obtain ⟨keys, _, h⟩ := bind_eq_ok.1 h
      cases h
    · exact (Spec.ofValue_sound h).2
  · cases h
    exact .absent

theorem checked_of_payloadSelection {options : Value} {spec selection : Option Spec}
    (hs : Spec.Checked spec) (h : payloadSelection spec options = .ok selection) :
    Spec.Checked selection := by
  obtain ⟨fromOptions, hoptions, h⟩ := bind_eq_ok.1 h
  cases spec with
  | some entries =>
      cases h
      exact hs
  | none =>
      cases h
      exact checked_of_payloadOfOptions hoptions

theorem BoundDocument.digest_answered (c : BoundDocument) :
    Avoids (Error.Unanswered plain) c.digest := by
  unfold digest
  split
  · exact avoids_ok _
  · exact avoids_rejection rfl fun _ => by simp [Error.message]

/-- The operations that take no order. -/
theorem Request.document_answered {r : Request} (hshape : r.InShape) (hplain : plain → r.Carried)
    (hts : ∀ t ∈ tables, t.Checked) (ht : table.Checked) {spec : Option Spec}
    (hs : Spec.Checked spec) {operation : Operation} (hquery : operation ≠ .query)
    (hcount : operation ≠ .count) :
    Avoids (Error.Unanswered plain) (r.document tables table spec operation) := by
  cases operation with
  | query => exact absurd rfl hquery
  | findOne => exact rowQuery_answered hts hs ht _ _ _
  | count => exact absurd rfl hcount
  | create =>
      refine (payloadSelection_answered hshape.options spec).bind fun selection h => ?_
      exact createMutation_answered hts (checked_of_payloadSelection hs h) ht hshape.values
        fun hp => (hplain hp).values
  | update =>
      refine (payloadSelection_answered hshape.options spec).bind fun selection h => ?_
      exact updateMutation_answered hts (checked_of_payloadSelection hs h) ht _ hshape.patch
        fun hp => (hplain hp).patch
  | delete =>
      exact (payloadSelection_answered hshape.options spec).bind fun selection _ => avoids_ok _

end

end GraphDoc
