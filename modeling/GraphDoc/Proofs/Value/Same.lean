import GraphDoc.Proofs.Value.Members
import Mathlib.Data.List.Perm.Basic

/-!
# GraphDoc.Proofs.Value.Same

When two values stand for the same.

Lists are compared item by item (`sameItems_iff`) and objects by look-ups
(`sameMembers_iff`).  A value in which each name stands once in every object
(`Value.Distinct`) stands for the same as itself (`Value.Distinct.same_self`), and
two such objects are the same if each name finds the same in both
(`same_obj_of_lookup`).
-/

namespace GraphDoc

namespace Value

/-! ## quantities -/

theorem Quantity.same_self (q : Quantity) : q.same q = true := by
  cases q <;> simp [same]

theorem Quantity.same_comm (q r : Quantity) : q.same r = r.same q := by
  cases q <;> cases r <;> simp [same, Bool.beq_comm]

/-- Every number has a quantity. -/
theorem exists_quantity_float (x : Binary64) : ∃ q, (float x).quantity? = some q := by
  cases x with
  | finite negative m e =>
      simp only [quantity?, Binary64.toRatio?]
      split <;> simp
  | infinite negative => exact ⟨_, rfl⟩
  | nan => exact ⟨_, rfl⟩

/-! ## values without parts -/

/-- A value without parts: no list and no object. -/
structure Plain (v : Value) : Prop where
  not_arr : ∀ items, v ≠ .arr items
  not_obj : ∀ ms, v ≠ .obj ms

/-- A primitive: a value without parts that was filled in. -/
structure Primitive (v : Value) : Prop extends v.Plain where
  filled : v ≠ .missing

variable {v w : Value}

/-- A value was not filled in, or is a list, an object or primitive. -/
theorem cases_primitive (v : Value) :
    v = .missing ∨ (∃ items, v = .arr items) ∨ (∃ ms, v = .obj ms) ∨ v.Primitive := by
  cases v with
  | missing => exact .inl rfl
  | arr items => exact .inr (.inl ⟨items, rfl⟩)
  | obj ms => exact .inr (.inr (.inl ⟨ms, rfl⟩))
  | _ => exact .inr (.inr (.inr ⟨⟨by simp, by simp⟩, by simp⟩))

theorem Plain.same_eq (h : v.Plain) (w : Value) : v.same w = v.sameScalar w := by
  cases v with
  | arr items => exact absurd rfl (h.not_arr items)
  | obj ms => exact absurd rfl (h.not_obj ms)
  | _ => simp [same]

theorem sameScalar_self (h : v.Plain) : v.sameScalar v = true := by
  cases v with
  | arr items => exact absurd rfl (h.not_arr items)
  | obj ms => exact absurd rfl (h.not_obj ms)
  | float x =>
      obtain ⟨q, hq⟩ := exists_quantity_float x
      simp [sameScalar, hq, q.same_self]
  | _ => simp [sameScalar, quantity?, Quantity.same]

/-- What is no number is the same as itself only, and numbers by their
quantities. -/
theorem sameScalar_iff :
    v.sameScalar w = true ↔
      (v = null ∧ w = null) ∨ (v = missing ∧ w = missing) ∨ (∃ t, v = str t ∧ w = str t) ∨
        ∃ q r, v.quantity? = some q ∧ w.quantity? = some r ∧ q.same r = true := by
  unfold sameScalar
  split
  · simp
  · simp
  · grind [quantity?]
  · split <;> grind

/-- Sameness of plain values goes both ways. -/
theorem sameScalar_symm (h : v.sameScalar w = true) : w.sameScalar v = true := by
  rw [sameScalar_iff] at h ⊢
  grind [Quantity.same_comm]

/-- What is the same as a value without parts has no parts either. -/
theorem Plain.same_symm (hv : v.Plain) (h : v.same w = true) : w.same v = true := by
  rw [hv.same_eq] at h
  have hw : w.Plain := by
    rw [sameScalar_iff] at h
    constructor <;> rintro _ rfl <;> simp [quantity?] at h
  rw [hw.same_eq]
  exact sameScalar_symm h

/-- A value without parts equals itself, unless it is the undefined number. -/
theorem Plain.equals_self (h : v.Plain) (hnan : v ≠ .float .nan) : v.equals v = true := by
  have hsame : v.same v = true := by
    rw [h.same_eq]
    exact sameScalar_self h
  unfold equals
  split
  · exact absurd rfl hnan
  · exact hsame

/-- Values that are equal as wholes stand for the same. -/
theorem same_of_equals (h : v.equals w = true) : v.same w = true := by
  unfold equals at h
  split at h
  · simp at h
  · exact h

/-! ## lists and objects -/

/-- Lists are the same if their items are, one by one. -/
theorem sameItems_iff {vs ws : List Value} :
    sameItems vs ws = true ↔ List.Forall₂ (fun v w => v.same w = true) vs ws := by
  induction vs generalizing ws with
  | nil => simp [sameItems, List.forall₂_nil_left_iff]
  | cons v rest ih => cases ws <;> simp [sameItems, ih]

/-- An object has the members of another one under the same keys. -/
theorem sameMembers_iff {ms others : Members} :
    sameMembers ms others = true ↔
      ∀ m ∈ ms, ∃ w, others.lookup m.1 = some w ∧ m.2.same w = true := by
  induction ms with
  | nil => simp [sameMembers]
  | cons m rest ih =>
      rw [sameMembers, List.forall_mem_cons, ← ih]
      cases others.lookup m.1 <;> simp

/-- In every object of a value each name stands once. -/
inductive Distinct : Value → Prop where
  | plain {v : Value} (h : v.Plain) : v.Distinct
  | arr {items : List Value} (each : ∀ v ∈ items, v.Distinct) : (arr items).Distinct
  | obj {ms : Members} (names : (Assoc.keys ms).Nodup) (each : ∀ m ∈ ms, m.2.Distinct) :
      (obj ms).Distinct

/-- Where names are distinct at every depth they are at the top. -/
theorem Distinct.keys_nodup {ms : Members} (h : (Value.obj ms).Distinct) :
    (Assoc.keys ms).Nodup := by
  cases h with
  | plain h => exact absurd rfl (h.not_obj ms)
  | obj names _ => exact names

theorem Distinct.lookup {ms : Members} (h : (Value.obj ms).Distinct) {key : Text}
    (hv : ms.lookup key = some v) : v.Distinct := by
  cases h with
  | plain h => exact absurd rfl (h.not_obj ms)
  | obj _ each => exact each _ (Assoc.mem_of_lookup hv)

/-- What is reached in a value in which names are distinct has distinct names, too. -/
theorem Distinct.throughout {ms : Members} (h : (Value.obj ms).Distinct) :
    Throughout (fun inner => (Assoc.keys inner).Nodup) ms := by
  generalize hv : Value.obj ms = v at h
  induction h generalizing ms with
  | plain h => exact absurd hv.symm (h.not_obj ms)
  | arr each ih => cases hv
  | obj names each ih =>
      cases hv
      exact .intro names fun key inner hmem => ih (key, .obj inner) hmem rfl

/-- A value in which names are distinct stands for the same as itself. -/
theorem Distinct.same_self (h : v.Distinct) : v.same v = true := by
  induction h with
  | plain h =>
      rw [h.same_eq]
      exact sameScalar_self h
  | arr each ih =>
      rw [same, sameItems_iff, List.forall₂_same]
      exact ih
  | obj names each ih =>
      simp only [same, BEq.rfl, Bool.true_and, sameMembers_iff]
      exact fun m hm => ⟨m.2, (lookup_eq_some_iff_mem names).2 hm, ih m hm⟩

/-- Objects are the same if each name finds the same in both of them. -/
theorem same_obj_of_lookup {ms others : Members} (distinct : (Assoc.keys ms).Nodup)
    (distinct' : (Assoc.keys others).Nodup)
    (h : ∀ key, Option.Rel (fun v w => v.same w = true) (ms.lookup key) (others.lookup key)) :
    (obj ms).same (obj others) = true := by
  have hkeys : ∀ key, key ∈ Assoc.keys ms ↔ key ∈ Assoc.keys others := by
    intro key
    rw [← not_iff_not, ← lookup_eq_none_iff, ← lookup_eq_none_iff]
    have hkey := h key
    cases hv : ms.lookup key <;> cases hw : others.lookup key <;> simp [hv, hw] at hkey ⊢
  have hperm := (List.perm_ext_iff_of_nodup distinct distinct').2 hkeys
  have hlength : ms.length = others.length := by simpa [Assoc.keys] using hperm.length_eq
  simp only [same, hlength, BEq.rfl, Bool.true_and, sameMembers_iff]
  intro m hm
  have hkey := h m.1
  rw [(lookup_eq_some_iff_mem distinct).2 hm] at hkey
  cases hw : others.lookup m.1 with
  | none => simp [hw] at hkey
  | some w =>
      rw [hw] at hkey
      cases hkey with
      | some hsame => exact ⟨w, rfl, hsame⟩

end Value

end GraphDoc
