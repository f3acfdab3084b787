import GraphDoc.Path
import GraphDoc.Proofs.Steps
import GraphDoc.Value.Shape

/-!
# GraphDoc.Proofs.Value.Members

Members, and the members of objects inside them.

Where each name stands once, what stands under a name is what is found under it
(`lookup_eq_some_iff_mem`).  A walk along names (`Value.follow?`) goes through
objects only, and `Throughout` says that the members on all such ways have a
property.
-/

namespace GraphDoc

variable {ms : Members} {key : Text} {v w : Value}

/-! ## looking up -/

theorem lookup_cons_eq_ite (m : Text × Value) (rest : Members) (key : Text) :
    List.lookup key (m :: rest) = if key = m.1 then some m.2 else rest.lookup key := by
  rw [List.lookup_cons]
  by_cases hkey : key = m.1
  · rw [beq_iff_eq.2 hkey, if_pos hkey]
  · rw [beq_eq_false_iff_ne.2 hkey, if_neg hkey]

theorem mem_keys_of_mem (h : (key, v) ∈ ms) : key ∈ Assoc.keys ms :=
  List.mem_map_of_mem h

/-- Where each name stands once, what stands under a name is found. -/
theorem lookup_eq_some_iff_mem (distinct : (Assoc.keys ms).Nodup) :
    ms.lookup key = some v ↔ (key, v) ∈ ms := by
  refine ⟨Assoc.mem_of_lookup, fun h => ?_⟩
  induction ms with
  | nil => exact absurd h List.not_mem_nil
  | cons m rest ih =>
      rw [Assoc.keys_cons, List.nodup_cons] at distinct
      rw [lookup_cons_eq_ite]
      rcases List.mem_cons.1 h with rfl | h
      · simp
      · have hne : key ≠ m.1 := fun he => distinct.1 (he ▸ mem_keys_of_mem h)
        rw [if_neg hne, ih distinct.2 h]

/-- A key finds nothing exactly if it is not there. -/
theorem lookup_eq_none_iff : ms.lookup key = none ↔ key ∉ Assoc.keys ms := by
  have hname : ∀ m ∈ ms, (key != m.1) = true ↔ m.1 ≠ key := by
    intro m _
    rw [bne_iff_ne, ne_comm]
  simp only [List.lookup_eq_none_iff, Assoc.keys, List.mem_map, not_exists, not_and]
  exact forall₂_congr hname

/-- A name that was set finds what it was set to, and the others find what they
found before. -/
theorem lookup_put (ms : Members) (name : Text) (v : Value) (key : Text) :
    (Assoc.put ms name v).lookup key = if key = name then some v else ms.lookup key := by
  induction ms with
  | nil => simp [Assoc.put, lookup_cons_eq_ite]
  | cons m rest ih =>
      by_cases hname : m.1 = name
      · by_cases hkey : key = name <;> simp [Assoc.put, lookup_cons_eq_ite, hname, hkey]
      · by_cases hkey : key = m.1
        · simp [Assoc.put, lookup_cons_eq_ite, hname, hkey]
        · simp [Assoc.put, lookup_cons_eq_ite, hname, hkey, ih]

theorem has_iff : Assoc.has ms key = true ↔ key ∈ Assoc.keys ms := by
  simp [Assoc.has, Assoc.keys]

/-- A write keeps keys distinct. -/
theorem nodup_keys_put (h : (Assoc.keys ms).Nodup) (name : Text) (v : Value) :
    (Assoc.keys (Assoc.put ms name v)).Nodup := by
  cases hname : Assoc.has ms name with
  | true => rwa [Assoc.keys_put_of_has ms name v hname]
  | false =>
      have hnew : name ∉ Assoc.keys ms := by rw [← has_iff, hname]; simp
      rw [Assoc.keys_put_of_not_has ms name v hname]
      exact (List.perm_append_singleton name _).nodup_iff.2 (List.nodup_cons.2 ⟨hnew, h⟩)

/-- Texts are names for looking up. -/
theorem mapM_toKey_texts (names : List Text) :
    (names.map Value.str).mapM Value.toKey = .ok (names.map Key.name) := by
  rw [mapM_eq_ok, List.forall₂_map_left_iff, List.forall₂_map_right_iff, List.forall₂_same]
  exact fun _ _ => rfl

/-! ## along names -/

namespace Value

theorem obj_or_not (v : Value) : (∃ ms, v = .obj ms) ∨ ∀ ms, v ≠ .obj ms := by
  cases v <;> simp

/-- A way starts with its first name. -/
theorem follow?_cons (v : Value) (name : Text) (rest : List Text) :
    v.follow? (name :: rest) = (v.member? name).bind fun w => w.follow? rest := by
  rw [follow?]
  cases v.member? name <;> rfl

/-- A way goes on from where its first part leads. -/
theorem follow?_append (v : Value) (names more : List Text) :
    v.follow? (names ++ more) = (v.follow? names).bind fun w => w.follow? more := by
  induction names generalizing v with
  | nil => rfl
  | cons name rest ih =>
      rw [List.cons_append, follow?_cons, follow?_cons, Option.bind_assoc]
      exact Option.bind_congr fun w _ => ih w

/-- Nothing is behind a value that is no object. -/
theorem follow?_of_not_obj (h : ∀ ms, v ≠ .obj ms) {names : List Text} (hsome : names ≠ []) :
    v.follow? names = none := by
  obtain ⟨name, rest, rfl⟩ := List.exists_cons_of_ne_nil hsome
  rw [follow?_cons]
  cases v with
  | obj ms => exact absurd rfl (h ms)
  | _ => rfl

/-- Behind one more name is what the object has under it. -/
theorem follow?_concat_obj {names : List Text} (h : v.follow? names = some (.obj ms))
    (key : Text) : v.follow? (names ++ [key]) = ms.lookup key := by
  rw [follow?_append, h, Option.bind_some, follow?_cons]
  exact Option.bind_fun_some (ms.lookup key)

/-- No way goes on from a value that is no object. -/
theorem follow?_concat_of_not_obj {names : List Text} (h : ∀ ms, v.follow? names ≠ some (.obj ms))
    (key : Text) : v.follow? (names ++ [key]) = none := by
  rw [follow?_append]
  cases hw : v.follow? names with
  | none => rfl
  | some w =>
      have hobj : ∀ ms, w ≠ .obj ms := fun ms he => h ms (he ▸ hw)
      exact follow?_of_not_obj hobj (List.cons_ne_nil key [])

end Value

/-! ## objects in objects -/

/-- The members have a property, and so have those of each object that is
reached from them through objects. -/
inductive Throughout (P : Members → Prop) : Members → Prop where
  | intro {ms : Members} (here : P ms)
      (inside : ∀ key inner, (key, .obj inner) ∈ ms → Throughout P inner) : Throughout P ms

/-- What holds throughout an object weakens throughout it. -/
theorem Throughout.mono {P Q : Members → Prop} (himp : ∀ ms, P ms → Q ms) (h : Throughout P ms) :
    Throughout Q ms := by
  induction h with
  | intro here inside ih => exact .intro (himp _ here) ih

/-- Objects do not go on without end, so what holds of all members holds throughout. -/
theorem Throughout.of_forall {P : Members → Prop} (h : ∀ ms, P ms) (ms : Members) :
    Throughout P ms :=
  .intro (h ms) fun _ inner _ => .of_forall h inner
termination_by sizeOf ms
decreasing_by
  rename_i hmem
  have hsmaller := List.sizeOf_lt_of_mem hmem
  rw [Prod.mk.sizeOf_spec, Value.obj.sizeOf_spec] at hsmaller
  omega

/-- What holds of all names holds of those that something is behind. -/
theorem Throughout.forall_mem_names {P : Text → Prop}
    (h : Throughout (fun ms => ∀ key ∈ Assoc.keys ms, P key) ms) {names : List Text}
    (hv : (Value.obj ms).follow? names = some v) : ∀ name ∈ names, P name := by
  induction h generalizing names with
  | @intro ms here inside ih =>
      cases names with
      | nil => exact fun name hname => absurd hname List.not_mem_nil
      | cons key rest =>
          rw [Value.follow?_cons, Value.member?, Option.bind_eq_some_iff] at hv
          obtain ⟨u, hu, hrest⟩ := hv
          have hmem : (key, u) ∈ ms := Assoc.mem_of_lookup hu
          refine List.forall_mem_cons.2 ⟨here key (mem_keys_of_mem hmem), ?_⟩
          rcases u.obj_or_not with ⟨inner, rfl⟩ | hobj
          · exact ih key inner hmem hrest
          · cases rest with
            | nil => exact fun name hname => absurd hname List.not_mem_nil
            | cons next more => simp [Value.follow?_of_not_obj hobj] at hrest

end GraphDoc
