import GraphDoc.Proofs.Service.Answer

/-!
# GraphDoc.Proofs.Service.Layers

How deep an answer nests.

An answer is told only if its variables nest no deeper than they are written
out, and the variables put the values of a request under some layers of their
own.  `Request.Shallow` says how deep the values themselves may nest, and then
the answer is told (`telling_document`).
-/

namespace GraphDoc

open Service

/-! ## parts of a value -/

/-- The items of a list have no more layers than each of them. -/
theorem itemLayers_le {vs : List Value} {n : Nat} :
    itemLayers vs ≤ n ↔ ∀ v ∈ vs, layers v ≤ n := by
  induction vs with
  | nil => simp [itemLayers]
  | cons v rest ih => rw [itemLayers, Nat.max_le, ih, List.forall_mem_cons]

/-- The members of an object have no more layers than each of them. -/
theorem memberLayers_le {ms : Members} {n : Nat} :
    memberLayers ms ≤ n ↔ ∀ m ∈ ms, layers m.2 ≤ n := by
  induction ms with
  | nil => simp [memberLayers]
  | cons m rest ih => rw [memberLayers, Nat.max_le, ih, List.forall_mem_cons]

@[simp] theorem layers_str (t : Text) : layers (.str t) = 1 := by simp [layers]

@[simp] theorem layers_arr (vs : List Value) : layers (.arr vs) = itemLayers vs + 1 := by
  rw [layers]

@[simp] theorem layers_obj (ms : Members) : layers (.obj ms) = memberLayers ms + 1 := by
  rw [layers]

/-- A body is told that can be carried and nests little enough. -/
theorem telling_eq {body : Value} (hcarried : carried body = true)
    (hlayers : layers body ≤ maxLayers) (status : Nat) :
    telling status body = ⟨status, some body⟩ := by
  rw [telling, hcarried, decide_eq_true hlayers]
  rfl

namespace Value

variable {v : Value} {n : Nat}

/-- A member lies one layer below the object. -/
theorem layers_of_member? (h : layers v ≤ n + 1) {key : Text} {w : Value}
    (hm : v.member? key = some w) : layers w ≤ n := by
  cases v with
  | obj ms =>
      rw [layers_obj, Nat.add_le_add_iff_right, memberLayers_le] at h
      exact h (key, w) (Assoc.mem_of_lookup hm)
  | _ => cases hm

/-- So does an option, and one that is absent has one layer only. -/
theorem layers_option (h : layers v ≤ n + 2) (name : Text) : layers (v.option name) ≤ n + 1 := by
  unfold option
  cases hm : v.member? name with
  | none => exact Nat.le_add_left 1 n
  | some w => exact layers_of_member? h hm

end Value

/-- The words of an order are texts, however deep the entries nest. -/
theorem RowOptions.itemLayers_orderWords {o : RowOptions} {words : List Value}
    (h : o.orderWords = .ok words) : itemLayers words ≤ 1 := by
  rw [itemLayers_le]
  refine forall_mem_of_forall₂ (mapM_eq_ok.1 h) fun entry _ word hword => ?_
  cases entry with
  | verbatim t =>
      cases hword
      exact Nat.le_of_eq (layers_str _)
  | byField field direction =>
      cases field with
      | str name =>
          cases hword
          exact Nat.le_of_eq (layers_str _)
      | _ => cases hword

/-! ## requests -/

/-- What of a request can get into the variables nests so little that they have 255
layers at most: what is written lies in an object for the input. -/
structure Request.Shallow (r : Request) : Prop where
  options : layers r.options ≤ 254
  values : layers r.values ≤ 254
  patch : layers r.patch ≤ 254
  rowId : layers r.rowId ≤ 254

namespace Request

variable {r : Request} {table : Table} {operation : Operation}

/-- What a shallow request binds to a variable is shallow. -/
theorem Binds.layers_le {name : Text} {v : Value} (h : r.Binds table operation name v)
    (hs : r.Shallow) : layers v ≤ 255 := by
  cases h with
  | option _ _ key =>
      have hoption : layers (r.options.option key) ≤ 253 := Value.layers_option hs.options key
      omega
  | order _ written =>
      have hwords := RowOptions.itemLayers_orderWords written
      rw [layers_arr]
      omega
  | row =>
      have hrow := hs.rowId
      omega
  | created given =>
      have hvalues := hs.values
      rw [given] at hvalues
      simp only [layers_obj, memberLayers] at hvalues ⊢
      omega
  | updated given =>
      have hrow := hs.rowId
      have hgiven : layers (r.patch.orElse (.obj [])) ≤ 254 := by
        unfold Value.orElse
        split
        · exact hs.patch
        · decide
      rw [given] at hgiven
      simp only [layers_obj, memberLayers] at hgiven ⊢
      omega
  | deleted =>
      have hrow := hs.rowId
      simp only [layers_obj, memberLayers]
      omega

/-- **Answers nest little**: the answer to a request is written out if what it
takes over nests little enough. -/
theorem layers_documentBody (hshape : r.InShape) (hs : r.Shallow) {tables : List Table} {a : Answer}
    (h : r.run operation tables = .ok a) : layers (documentBody a) ≤ maxLayers := by
  obtain ⟨table, _, h⟩ := bind_eq_ok.1 h
  obtain ⟨spec, _, h⟩ := bind_eq_ok.1 h
  obtain ⟨c, hc, h⟩ := bind_eq_ok.1 h
  obtain ⟨digest, _, h⟩ := bind_eq_ok.1 h
  have hvalues : memberLayers c.values ≤ 255 :=
    memberLayers_le.2 fun m hm => (binds_of_document hshape hc hm).layers_le hs
  rw [← pure_eq_ok.1 h]
  simp only [documentBody, layers_obj, layers_str, memberLayers, maxLayers]
  omega

/-- The answer to a request that can be carried and nests little is told. -/
theorem telling_document (hshape : r.InShape) (hcarried : r.Carried) (hs : r.Shallow)
    {tables : List Table} (hts : ∀ t ∈ tables, t.Checked) {a : Answer}
    (h : r.run operation tables = .ok a) :
    telling 200 (documentBody a) = ⟨200, some (documentBody a)⟩ :=
  telling_eq (carried_documentBody hshape hcarried hts h) (layers_documentBody hshape hs h) 200

end Request

end GraphDoc
