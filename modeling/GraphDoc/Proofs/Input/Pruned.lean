import GraphDoc.Proofs.Document.Variables
import GraphDoc.Proofs.Input.Listed

/-!
# GraphDoc.Proofs.Input.Pruned

What is left of values in their input, and what is left of the input in its own.

The walk leaves entries out, at all depths, and does nothing else to the values
(`Pruned`).  Of two preparations that name the same entries, one of which goes on
wherever the other does, that one leaves out less (`Preparation.Admits.pruned`).
Whether an entry goes is decided by its path and its value, and what is left out
below an object changes neither; so a second walk leaves nothing out
(`Preparation.members_members`).
-/

namespace GraphDoc

/-! ## what is left -/

mutual
/-- What is left of members at a path: some of the entries, in their order, each
under its name. -/
inductive Pruned (always : List Text) : Text → Members → Members → Prop where
  | nil {path : Text} : Pruned always path [] []
  | drop {path : Text} {m : Text × Value} {kept ms : Members} (rest : Pruned always path kept ms) :
      Pruned always path kept (m :: ms)
  | keep {path key : Text} {w v : Value} {kept ms : Members}
      (entry : PrunedEntry always ⟨key, below path key⟩ w v) (rest : Pruned always path kept ms) :
      Pruned always path ((key, w) :: kept) ((key, v) :: ms)

/-- What is left of an entry. -/
inductive PrunedEntry (always : List Text) : Place → Value → Value → Prop where
  /-- One that always goes is left as it is. -/
  | whole {place : Place} {v : Value} (listed : place.Listed always) : PrunedEntry always place v v
  /-- So is a value that is no object. -/
  | value {place : Place} {v : Value} (single : ∀ ms, v ≠ .obj ms) : PrunedEntry always place v v
  /-- An object is left with what is left of its members, and that is something. -/
  | part {place : Place} {kept ms : Members} (some : kept ≠ [])
      (inside : Pruned always place.path kept ms) :
      PrunedEntry always place (.obj kept) (.obj ms)
end

variable {always : List Text} {path key : Text} {kept ms : Members} {v w : Value}

/-- Where something is left there was something. -/
theorem Pruned.ne_nil (h : Pruned always path kept ms) (hkept : kept ≠ []) : ms ≠ [] := by
  cases h with
  | nil => exact hkept
  | drop rest => exact List.cons_ne_nil _ _
  | keep entry rest => exact List.cons_ne_nil _ _

/-- The entries that one rule lets go are left of those that another one does, if it
lets go something of each entry of which the first does. -/
theorem pruned_of_entries (first second : Text → Value → Option Value)
    (h : ∀ m ∈ ms, ∀ w, first m.1 m.2 = some w →
      ∃ v, second m.1 m.2 = some v ∧ PrunedEntry always ⟨m.1, below path m.1⟩ w v) :
    Pruned always path (ms.filterMap fun m => (first m.1 m.2).map fun w => (m.1, w))
      (ms.filterMap fun m => (second m.1 m.2).map fun v => (m.1, v)) := by
  induction ms with
  | nil => exact .nil
  | cons m rest ih =>
      rw [List.forall_mem_cons] at h
      have hrest := ih h.2
      rw [List.filterMap_cons, List.filterMap_cons]
      cases hfirst : first m.1 m.2 with
      | none =>
          cases second m.1 m.2 with
          | none => exact hrest
          | some v => exact .drop hrest
      | some w =>
          obtain ⟨v, hsecond, hentry⟩ := h.1 w hfirst
          rw [hsecond]
          exact .keep hentry hrest

namespace Preparation

variable {p q : Preparation} {u : Value}

/-! ## values and their input -/

/-- Of an entry goes what is left of it, if that is so of the members of objects. -/
theorem pruned_entry (hu : p.entry path key u = some w)
    (inside : ∀ inner, u = .obj inner →
      Pruned p.always (below path key) (p.members (below path key) inner) inner) :
    PrunedEntry p.always ⟨key, below path key⟩ w u := by
  obtain ⟨_, ⟨halways, rfl⟩ | ⟨_, hvalue⟩⟩ := entry_eq_some_iff.1 hu
  · exact .whole (includes_iff.1 halways)
  · rcases u.obj_or_not with ⟨inner, rfl⟩ | hobj
    · obtain ⟨_, hsome, rfl⟩ := value_obj_eq_some.1 hvalue
      exact .part hsome (inside inner rfl)
    · obtain rfl : w = u := eq_of_value_eq_some hobj hvalue
      exact .value hobj

/-- **The input is a part**: of members goes what is left of them. -/
theorem pruned_members (p : Preparation) (path : Text) (ms : Members) :
    Pruned p.always path (p.members path ms) ms := by
  have hms : Throughout (fun _ => True) ms := .of_forall (fun _ => trivial) ms
  induction hms generalizing path with
  | @intro ms _ inside ih =>
      have hwhole : (ms.filterMap fun m => (some m.2).map fun v => (m.1, v)) = ms :=
        List.filterMap_some
      have hentries : ∀ m ∈ ms, ∀ w, p.entry path m.1 m.2 = some w →
          ∃ v, some m.2 = some v ∧ PrunedEntry p.always ⟨m.1, below path m.1⟩ w v :=
        fun m hm w hw =>
          ⟨m.2, rfl, pruned_entry hw fun inner hinner => ih m.1 inner (hinner ▸ hm) _⟩
      have hpruned := pruned_of_entries (p.entry path) (fun _ => some) hentries
      rwa [hwhole, ← p.members_eq] at hpruned

/-- What goes of an entry goes of it again, if that is so of the members of objects. -/
theorem entry_again (hu : p.entry path key u = some w)
    (inside : ∀ inner, u = .obj inner →
      p.members (below path key) (p.members (below path key) inner) =
        p.members (below path key) inner) : p.entry path key w = some w := by
  obtain ⟨hexcluded, ⟨halways, rfl⟩ | ⟨halways, hvalue⟩⟩ := entry_eq_some_iff.1 hu
  · exact hu
  · refine entry_eq_some_iff.2 ⟨hexcluded, .inr ⟨halways, ?_⟩⟩
    rcases u.obj_or_not with ⟨inner, rfl⟩ | hobj
    · obtain ⟨hreaches, hsome, rfl⟩ := value_obj_eq_some.1 hvalue
      rw [value_obj_eq_some, inside inner rfl]
      exact ⟨hreaches, hsome, rfl⟩
    · obtain rfl : w = u := eq_of_value_eq_some hobj hvalue
      exact hvalue

/-- **Nothing goes twice**: all that goes of members goes of it again. -/
theorem members_members (p : Preparation) (path : Text) (ms : Members) :
    p.members path (p.members path ms) = p.members path ms := by
  have hms : Throughout (fun _ => True) ms := .of_forall (fun _ => trivial) ms
  induction hms generalizing path with
  | @intro ms _ inside ih =>
      rw [p.members_eq path (p.members path ms), p.members_eq path ms, List.filterMap_filterMap]
      refine List.filterMap_congr fun m hm => ?_
      cases hw : p.entry path m.1 m.2 with
      | none => rfl
      | some w =>
          have hagain : p.entry path m.1 w = some w :=
            entry_again hw fun inner hinner => ih m.1 inner (hinner ▸ hm) _
          rw [Option.map_some, Option.bind_some, hagain, Option.map_some]

/-! ## two preparations -/

/-- A preparation that names the same entries as another one, and lets go what the
other one does. -/
structure Admits (q p : Preparation) : Prop where
  always : q.always = p.always
  excluded : q.excluded = p.excluded
  reaches : ∀ path, p.reaches path = true → q.reaches path = true
  value : ∀ path v w, (∀ ms, v ≠ .obj ms) → p.value path v = some w → q.value path v = some w

/-- A preparation that admits another one lets its entries go again, pruned inside. -/
theorem Admits.entry (h : q.Admits p) (hu : p.entry path key u = some w)
    (inside : ∀ inner, u = .obj inner →
      Pruned p.always (below path key) (p.members (below path key) inner)
        (q.members (below path key) inner)) :
    ∃ v, q.entry path key u = some v ∧ PrunedEntry p.always ⟨key, below path key⟩ w v := by
  simp only [entry_eq_some_iff, excludes, includes, h.always, h.excluded]
  simp only [entry_eq_some_iff, excludes, includes] at hu
  obtain ⟨hexcluded, ⟨halways, rfl⟩ | ⟨halways, hvalue⟩⟩ := hu
  · exact ⟨w, ⟨hexcluded, .inl ⟨halways, rfl⟩⟩, .whole (includes_iff.1 halways)⟩
  rcases u.obj_or_not with ⟨inner, rfl⟩ | hobj
  · obtain ⟨hreaches, hsome, rfl⟩ := value_obj_eq_some.1 hvalue
    have hinner := inside inner rfl
    have hgoes := value_obj_eq_some.2 ⟨h.reaches _ hreaches, hinner.ne_nil hsome, rfl⟩
    exact ⟨_, ⟨hexcluded, .inr ⟨halways, hgoes⟩⟩, .part hsome hinner⟩
  · obtain rfl : w = u := eq_of_value_eq_some hobj hvalue
    exact ⟨w, ⟨hexcluded, .inr ⟨halways, h.value _ w w hobj hvalue⟩⟩, .value hobj⟩

/-- A preparation that admits another one leaves out less, at all depths. -/
theorem Admits.pruned (h : q.Admits p) (path : Text) (ms : Members) :
    Pruned p.always path (p.members path ms) (q.members path ms) := by
  have hms : Throughout (fun _ => True) ms := .of_forall (fun _ => trivial) ms
  induction hms generalizing path with
  | @intro ms _ inside ih =>
      rw [p.members_eq, q.members_eq]
      refine pruned_of_entries _ _ fun m hm w hw => h.entry hw fun inner hinner => ?_
      exact ih m.1 inner (hinner ▸ hm) _

end Preparation

/-! ## inputs of inputs -/

/-- **The input is its own input**: whatever is asked for, all that goes of some values
goes of it again.  It is left of the values: they have its entries at all depths, in
its order, and as they are where they are no objects or always go.  So it can be
written where the values can. -/
theorem run_request_again (p : Preparation) (values : Members) :
    ∃ result, (p.request values).run = .ok result ∧ (p.request result).run = .ok result ∧
      Pruned p.always [] result values ∧
      ∀ table,
        ((∃ bag, createValues table (.obj values) = .ok bag) →
          ∃ bag, createValues table (.obj result) = .ok bag) ∧
        ∀ rowId, (∃ bag, updateValues table rowId (.obj values) = .ok bag) →
          ∃ bag, updateValues table rowId (.obj result) = .ok bag := by
  have hkeys : (Assoc.keys (p.run values)).Sublist (Assoc.keys values) := p.keys_members [] values
  refine ⟨p.run values, p.run_request values, ?_, p.pruned_members [] values, fun table => ?_⟩
  · rw [p.run_request]
    exact congrArg Except.ok (p.members_members [] values)
  · simp only [exists_createValues_iff, exists_updateValues_iff]
    exact ⟨fun h key hkey => h key (hkeys.subset hkey),
      fun _ h key hkey => h key (hkeys.subset hkey)⟩

namespace Account

def table : Table where
  name := "Account"
  fields := [{ name := "name", wireType := "String" }, { name := "settings", wireType := "JSON" }]

/-- What goes of an account of which only the secret was touched, and the name always
goes. -/
def remainder : Members := [("name", .str "Ada"), ("settings", .obj [("secret", .str "s")])]

end Account

/-- The name and the secret of an account go again, and they can be written where the
whole account can. -/
theorem run_request_again_account :
    ((Account.patch (some ["settings.secret"]) ["name"] []).request Account.profile).run =
        .ok Account.remainder ∧
      ((Account.patch (some ["settings.secret"]) ["name"] []).request Account.remainder).run =
        .ok Account.remainder ∧
      Pruned ["name"] [] Account.remainder Account.profile ∧
      (∃ bag, createValues Account.table (.obj Account.profile) = .ok bag) ∧
      ∃ bag, createValues Account.table (.obj Account.remainder) = .ok bag := by
  have hvalue : ((Account.patch (some ["settings.secret"]) ["name"] []).request
      Account.profile).run = .ok Account.remainder := rfl
  have hcreates : ∃ bag, createValues Account.table (.obj Account.profile) = .ok bag := ⟨_, rfl⟩
  obtain ⟨result, hrun, hagain, hpruned, hwritten⟩ :=
    run_request_again (Account.patch (some ["settings.secret"]) ["name"] []) Account.profile
  cases ok_unique hrun hvalue
  exact ⟨hvalue, hagain, hpruned, hcreates, (hwritten Account.table).1 hcreates⟩

end GraphDoc
