import GraphDoc.Proofs.Input.Arrival

/-!
# GraphDoc.Proofs.Input.Touched

What goes where the touched paths are known.

A value that is no object goes if its path was touched or a path above it, and a
list also if something below it was touched (`Goes`).  The walk does not ask this
of a value that it does not come to; but where it turns back at an object, nothing
goes of what is inside (`reaches_of_goes`).  So what goes is told by the paths
alone, however deep (`yields_iff_of_unlisted`, `follow?_members`), and an object goes
exactly with a value inside it (`obj_goes_iff`).
-/

namespace GraphDoc

/-! ## touched paths -/

/-- A path was touched, or one above it. -/
def Touched (dirty : List Text) (path : Text) : Prop :=
  path ∈ dirty ∨ ∃ above ∈ dirty, Ancestor above path

/-- A path below was touched. -/
def TouchedBelow (dirty : List Text) (path : Text) : Prop := ∃ d ∈ dirty, Extends path d

/-- The value at a path, which is no object, goes: it was filled in, and its path
or one above was touched, or it is a list and one below was touched. -/
def Goes (dirty : List Text) (path : Text) (v : Value) : Prop :=
  v ≠ .missing ∧ (Touched dirty path ∨ (∃ items, v = .arr items) ∧ TouchedBelow dirty path)

/-- Where a path was touched, or one above or below it, so was each path above it,
or one above or below that. -/
theorem touched_or_below_of_extends {dirty : List Text} {path other : Text}
    (habove : Extends path other) (h : Touched dirty other ∨ TouchedBelow dirty other) :
    Touched dirty path ∨ TouchedBelow dirty path := by
  rcases h with (hdirty | ⟨above, habove', hother⟩) | ⟨d, hd, hbelow⟩
  · exact .inr ⟨other, hdirty, habove⟩
  · -- The touched path and this one are both above the other one.
    rcases (ancestor_iff_extends.1 hother).linear habove with rfl | hup | hdown
    · exact .inl (.inl habove')
    · exact .inl (.inr ⟨above, habove', ancestor_iff_extends.2 hup⟩)
    · exact .inr ⟨above, habove', hdown⟩
  · exact .inr ⟨d, hd, habove.trans hbelow⟩

/-- What is below a touched path was touched with it. -/
theorem Touched.of_extends {dirty : List Text} {path other : Text} (h : Touched dirty path)
    (hbelow : Extends path other) : Touched dirty other := by
  rcases h with hdirty | ⟨above, hdirty, habove⟩
  · exact .inr ⟨path, hdirty, ancestor_iff_extends.2 hbelow⟩
  · have hother := (ancestor_iff_extends.1 habove).trans hbelow
    exact .inr ⟨above, hdirty, ancestor_iff_extends.2 hother⟩

/-- Each name stands once, and no name is empty. -/
structure Keyed (ms : Members) : Prop where
  distinct : (Assoc.keys ms).Nodup
  named : ∀ key ∈ Assoc.keys ms, key ≠ []

instance (ms : Members) : Decidable (Keyed ms) :=
  decidable_of_iff ((Assoc.keys ms).Nodup ∧ ∀ key ∈ Assoc.keys ms, key ≠ [])
    ⟨fun h => ⟨h.1, h.2⟩, fun h => ⟨h.distinct, h.named⟩⟩

namespace Preparation

variable {p : Preparation} {dirty : List Text} {path other : Text} {u v w : Value}

/-- A path counts as touched exactly if it, or one above it, was touched. -/
theorem touched_iff (h : p.dirty = some dirty) : p.touched path = true ↔ Touched dirty path := by
  simp only [touched, h, List.any_eq_true, covers_iff, Touched, ancestor_iff_extends]
  grind

/-- Something counts as touched at a path or below it exactly if the path or one below
it was touched. -/
theorem touchedBelow_iff (h : p.dirty = some dirty) :
    p.touchedBelow path = true ↔ path ∈ dirty ∨ TouchedBelow dirty path := by
  simp only [touchedBelow, h, List.any_eq_true, covers_iff, TouchedBelow]
  grind

/-- The walk reaches what was touched and what has something touched below it. -/
theorem reaches_iff (h : p.dirty = some dirty) :
    p.reaches path = true ↔ Touched dirty path ∨ TouchedBelow dirty path := by
  rw [reaches, Bool.or_eq_true, touched_iff h, touchedBelow_iff h, Touched]
  grind

/-- **The gate**: the walk goes on to a path above every value that goes. -/
theorem reaches_of_goes (h : p.dirty = some dirty) (habove : Extends path other)
    (hgoes : Goes dirty other v) : p.reaches path = true := by
  rw [reaches_iff h]
  exact touched_or_below_of_extends habove (hgoes.2.imp id And.right)

/-- Where touched paths are known, neither the operation nor a default value
decides whether a value goes. -/
theorem value_eq_some_iff (h : p.dirty = some dirty) (hv : ∀ ms, v ≠ .obj ms) :
    p.value path v = some w ↔ w = v ∧ Goes dirty path v := by
  have htracks : p.tracks = true := by simp [tracks, h]
  have hclears : p.clears path = p.touched path := by
    rw [clears]
    cases p.operation <;> simp [htracks]
  have hchanges : ∀ u, p.changes path u = p.touched path := fun u => by simp [changes, htracks]
  rcases v.cases_primitive with rfl | ⟨items, rfl⟩ | ⟨ms, rfl⟩ | hprimitive
  · simp [value, Goes]
  · simp [value, Goes, reaches_iff h, eq_comm, and_comm]
  · exact absurd rfl (hv ms)
  · have hgoes : Goes dirty path v ↔ p.touched path = true := by
      simp [Goes, hprimitive.filled, hprimitive.not_arr, touched_iff h]
    rw [value_primitive hprimitive, hclears, hchanges, ite_self, hgoes]
    grind

/-! ## what is behind names -/

variable {ms : Members}

/-- Where no entry on the way always goes, of a value goes another one that is no
object exactly if nothing on the way is excluded, they are the same, and it goes by
the path of its names: a value that goes opens the gates at the objects that it is
behind. -/
theorem yields_iff_of_unlisted (hdirty : p.dirty = some dirty) (above : List Text)
    {names : List Text} (hnames : ∀ name ∈ above ++ names, name ≠ []) (hsome : names ≠ [])
    (hv : ∀ ms, v ≠ .obj ms)
    (halways : ∀ place ∈ trail (dotted above) names, ¬ place.Listed p.always) :
    p.Yields (dotted above) names u v ↔
      (∀ place ∈ trail (dotted above) names, ¬ place.Listed p.excluded) ∧
        u = v ∧ Goes dirty (dotted (above ++ names)) v := by
  induction names generalizing above with
  | nil => exact absurd rfl hsome
  | cons name rest ih =>
      have habove : ∀ other ∈ above, other ≠ [] := fun other hother =>
        hnames other (List.mem_append_left _ hother)
      rw [List.append_cons] at hnames ⊢
      rw [trail_cons, List.forall_mem_cons, below_dotted habove] at halways
      rw [yields_cons, trail_cons, List.forall_mem_cons, below_dotted habove]
      simp only [halways.1, not_false_eq_true, false_and, false_or, true_and, and_assoc]
      refine and_congr_right fun _ => ?_
      by_cases hrest : rest = []
      · rcases u.obj_or_not with ⟨inner, rfl⟩ | hobj
        · simp only [value_obj_eq_some, hrest, not_yields_nil]
          grind
        · simp only [value_eq_some_iff hdirty hobj, hrest, not_yields_nil, List.append_nil,
            trail_nil, List.not_mem_nil, IsEmpty.forall_iff, implies_true, true_and]
          grind
      · have hbelow : Extends (dotted (above ++ [name])) (dotted (above ++ [name] ++ rest)) :=
          ⟨dotted rest, dotted_append (by simp) hrest⟩
        have hgate : Goes dirty (dotted (above ++ [name] ++ rest)) v →
            p.reaches (dotted (above ++ [name])) = true := reaches_of_goes hdirty hbelow
        rw [ih _ hnames hrest halways.2]
        tauto

/-- Without lists a value that is no object goes as its path was touched. -/
theorem Impartial.yields_iff (h : p.Impartial) (hdirty : p.dirty = some dirty)
    {above names : List Text} (hnames : ∀ name ∈ above ++ names, name ≠ []) (hsome : names ≠ [])
    (hv : ∀ ms, v ≠ .obj ms) :
    p.Yields (dotted above) names u v ↔ u = v ∧ Goes dirty (dotted (above ++ names)) v := by
  have hunlisted : ∀ place ∈ trail (dotted above) names, ¬ place.Listed [] := by
    simp [Place.Listed]
  rw [yields_iff_of_unlisted hdirty above hnames hsome hv (h.always ▸ hunlisted), h.excluded]
  exact and_iff_right hunlisted

/-- Of the values at all depths those go that the paths tell, and they go as they
are. -/
theorem Impartial.follow?_members (h : p.Impartial) (hdirty : p.dirty = some dirty)
    (hms : Throughout Keyed ms) {above : List Text} (habove : ∀ name ∈ above, name ≠ [])
    {names : List Text} (hsome : names ≠ []) (hv : ∀ ms, v ≠ .obj ms) :
    (Value.obj (p.members (dotted above) ms)).follow? names = some v ↔
      (Value.obj ms).follow? names = some v ∧ Goes dirty (dotted (above ++ names)) v := by
  have hnamed := hms.mono fun _ hkeyed => hkeyed.named
  have hyields : ∀ {u}, (Value.obj ms).follow? names = some u →
      (p.Yields (dotted above) names u v ↔ u = v ∧ Goes dirty (dotted (above ++ names)) v) :=
    fun hu => h.yields_iff hdirty
      (List.forall_mem_append.2 ⟨habove, hnamed.forall_mem_names hu⟩) hsome hv
  rw [follow?_members_iff (hms.mono fun _ hkeyed => hkeyed.distinct) hsome]
  constructor
  · rintro ⟨u, hu, hgoes⟩
    obtain ⟨rfl, hgoes⟩ := (hyields hu).1 hgoes
    exact ⟨hu, hgoes⟩
  · rintro ⟨hu, hgoes⟩
    exact ⟨v, hu, (hyields hu).2 ⟨rfl, hgoes⟩⟩

/-! ## objects -/

/-- What goes of members, if anything does, has a value that is no object. -/
theorem Impartial.exists_value_members (h : p.Impartial) (hms : Throughout Keyed ms)
    (hsome : p.members path ms ≠ []) :
    ∃ names v, names ≠ [] ∧ (∀ ms, v ≠ .obj ms) ∧
      (Value.obj (p.members path ms)).follow? names = some v := by
  induction hms generalizing path with
  | @intro ms here inside ih =>
      obtain ⟨⟨key, w⟩, rest, hmembers⟩ := List.exists_cons_of_ne_nil hsome
      have hmem : (key, w) ∈ p.members path ms := by simp [hmembers]
      have hlookup : (Value.obj (p.members path ms)).member? key = some w :=
        (lookup_eq_some_iff_mem (p.nodup_keys_members here.distinct path)).2 hmem
      obtain ⟨u, hu, hgoes⟩ := h.mem_members.1 hmem
      rcases u.obj_or_not with ⟨inner, rfl⟩ | hobj
      · obtain ⟨_, hinner, rfl⟩ := value_obj_eq_some.1 hgoes
        obtain ⟨names, v, _, hv, hfollow⟩ := ih key inner hu hinner
        exact ⟨key :: names, v, List.cons_ne_nil key names, hv, by
          rw [Value.follow?_cons, hlookup, Option.bind_some, hfollow]⟩
      · obtain rfl : w = u := eq_of_value_eq_some hobj hgoes
        exact ⟨[key], w, List.cons_ne_nil key [], hobj, by
          rw [Value.follow?_cons, hlookup, Option.bind_some, Value.follow?]⟩

/-- So has each object that goes, at all depths. -/
theorem Impartial.exists_value_below (h : p.Impartial) (hms : Throughout Keyed ms)
    {names : List Text} (hsome : names ≠ []) {kept : Members}
    (hkept : (Value.obj (p.members path ms)).follow? names = some (.obj kept)) :
    ∃ more v, more ≠ [] ∧ (∀ ms, v ≠ .obj ms) ∧ (Value.obj kept).follow? more = some v := by
  induction hms generalizing path names with
  | @intro ms here inside ih =>
      obtain ⟨key, rest, rfl⟩ := List.exists_cons_of_ne_nil hsome
      rw [Value.follow?_cons, Value.member?, h.lookup_members here.distinct,
        Option.bind_eq_some_iff] at hkept
      obtain ⟨w, hw, hrest⟩ := hkept
      obtain ⟨u, hu, hgoes⟩ := Option.bind_eq_some_iff.1 hw
      rcases u.obj_or_not with ⟨inner, rfl⟩ | hobj
      · obtain ⟨_, hinner, rfl⟩ := value_obj_eq_some.1 hgoes
        have hmem := Assoc.mem_of_lookup hu
        by_cases hlast : rest = []
        · rw [hlast, Value.follow?, Option.some.injEq, Value.obj.injEq] at hrest
          rw [← hrest]
          exact h.exists_value_members (inside key inner hmem) hinner
        · exact ih key inner hmem hlast hrest
      · obtain rfl : w = u := eq_of_value_eq_some hobj hgoes
        cases rest with
        | nil => exact absurd (Option.some.inj hrest) (hobj kept)
        | cons name rest => simp [Value.follow?_of_not_obj hobj] at hrest

/-- An object goes exactly with a value inside it. -/
theorem Impartial.obj_goes_iff (h : p.Impartial) (hms : Throughout Keyed ms) {names : List Text}
    (hsome : names ≠ []) :
    (∃ kept, (Value.obj (p.members path ms)).follow? names = some (.obj kept)) ↔
      ∃ more v, more ≠ [] ∧ (∀ ms, v ≠ .obj ms) ∧
        (Value.obj (p.members path ms)).follow? (names ++ more) = some v := by
  simp only [Value.follow?_append, Option.bind_eq_some_iff]
  constructor
  · intro hobj
    obtain ⟨kept, hkept⟩ := hobj
    obtain ⟨more, v, hmore, hv, hfollow⟩ := h.exists_value_below hms hsome hkept
    exact ⟨more, v, hmore, hv, .obj kept, hkept, hfollow⟩
  · intro hvalue
    obtain ⟨more, v, hmore, _, w, hw, hfollow⟩ := hvalue
    rcases w.obj_or_not with ⟨kept, rfl⟩ | hobj
    · exact ⟨kept, hw⟩
    · simp [Value.follow?_of_not_obj hobj hmore] at hfollow

/-! ## the operation and the default values -/

/-- Preparations that know of the same touched paths let the same go. -/
theorem Impartial.members_eq_of_dirty {q : Preparation} (hp : p.Impartial) (hq : q.Impartial)
    (hpd : p.dirty = some dirty) (hqd : q.dirty = some dirty) (path : Text) (ms : Members) :
    p.members path ms = q.members path ms := by
  have hagrees : p.AgreesAt q fun _ => True := by
    refine ⟨hp.always.trans hq.always.symm, hp.excluded.trans hq.excluded.symm, fun path _ => ?_,
      fun path v _ hv => Option.ext fun w => ?_⟩
    · rw [Bool.eq_iff_iff, reaches_iff hpd, reaches_iff hqd]
    · rw [value_eq_some_iff hpd hv, value_eq_some_iff hqd hv]
  exact hagrees.members_eq (fun _ _ _ => trivial) fun _ _ => trivial

end Preparation

/-! ## the dirty part -/

/-- **Touched values**: where the touched paths are known, and nothing goes or stays
behind by its name, the input is the touched part of the values, whatever the
operation and the default values.  A value that is no object is in it at some
names exactly if it is among the values there, was filled in, and its path or one
above was touched, or it is a list and a path below was touched.  An object is in
it exactly if such a value is behind it. -/
theorem run_request_touched (dirty : List Text) {values : Members}
    (hvalues : Throughout Keyed values) :
    ∃ result,
      (∀ operation defaults, (Preparation.request
        { operation := operation, dirty := some dirty, defaults := defaults } values).run =
          .ok result) ∧
      (∀ names v, names ≠ [] → (∀ ms, v ≠ .obj ms) →
        ((Value.obj result).follow? names = some v ↔
          (Value.obj values).follow? names = some v ∧ Goes dirty (dotted names) v)) ∧
      ∀ names, names ≠ [] →
        ((∃ kept, (Value.obj result).follow? names = some (.obj kept)) ↔
          ∃ more v, more ≠ [] ∧ (∀ ms, v ≠ .obj ms) ∧
            (Value.obj values).follow? (names ++ more) = some v ∧
              Goes dirty (dotted (names ++ more)) v) := by
  have himpartial : ∀ operation defaults, Preparation.Impartial
      { operation := operation, dirty := some dirty, defaults := defaults } :=
    fun _ _ => ⟨rfl, rfl⟩
  have hp := himpartial .create .null
  have htop : ∀ name ∈ ([] : List Text), name ≠ [] := by simp
  have hfollow := fun names v (hsome : names ≠ []) (hv : ∀ ms, v ≠ Value.obj ms) =>
    hp.follow?_members rfl hvalues htop hsome hv
  refine ⟨_, fun operation defaults => ?_, hfollow, fun names hsome => ?_⟩
  · have hmembers := (himpartial operation defaults).members_eq_of_dirty hp rfl rfl [] values
    rw [Preparation.run_request]
    exact congrArg Except.ok hmembers
  · rw [hp.obj_goes_iff hvalues hsome]
    refine exists_congr fun more => exists_congr fun v => and_congr_right fun hmore => ?_
    refine and_congr_right fun hv => ?_
    exact hfollow (names ++ more) v (List.append_ne_nil_of_left_ne_nil hsome more) hv

namespace Account

/-- An account with its settings. -/
def values : Members := [
  ("name", .str "Ada"),
  ("settings", .obj [
    ("theme", .str "dark"), ("tags", .arr [.str "new"]), ("language", .missing)])]

/-- The fields of the account that were touched. -/
def dirty : List Text := ["settings.theme", "settings.tags.0"]

/-- The creation of the account from what was touched. -/
def creation : Preparation where
  operation := .create
  dirty := some dirty
  defaults := .obj values

theorem keyed : Throughout Keyed values := by
  refine .intro (by decide) fun key inner hmem => ?_
  simp only [values, List.mem_cons, Prod.mk.injEq, reduceCtorEq, and_false, Value.obj.injEq,
    List.not_mem_nil, or_false, false_or] at hmem
  obtain ⟨_, rfl⟩ := hmem
  exact .intro (by decide) (by simp)

end Account

/-- The theme and the tags of an account, one touched itself and the other below;
the name was not touched. -/
theorem run_request_touched_account :
    Throughout Keyed Account.values ∧
    ∃ result, (Account.creation.request Account.values).run = .ok result ∧
      (Value.obj result).follow? ["settings", "theme"] = some (.str "dark") ∧
      (Value.obj result).follow? ["settings", "tags"] = some (.arr [.str "new"]) ∧
      (Value.obj result).follow? ["name"] ≠ some (.str "Ada") := by
  obtain ⟨result, hrun, hgoes, _⟩ := run_request_touched Account.dirty Account.keyed
  refine ⟨Account.keyed, result, hrun .create _, ?_, ?_, ?_⟩
  · have htouched : Touched Account.dirty (dotted ["settings", "theme"]) := .inl (by decide)
    exact (hgoes _ _ (by decide) (by simp)).2 ⟨rfl, by simp, .inl htouched⟩
  · have hbelow : TouchedBelow Account.dirty (dotted ["settings", "tags"]) :=
      ⟨"settings.tags.0", by decide, "0", rfl⟩
    exact (hgoes _ _ (by decide) (by simp)).2 ⟨rfl, by simp, .inr ⟨⟨_, rfl⟩, hbelow⟩⟩
  · intro hname
    have hlength : (segments (dotted ["name"])).length = 1 := rfl
    obtain ⟨_, _, htouched | ⟨⟨items, hlist⟩, _⟩⟩ := (hgoes _ _ (by decide) (by simp)).1 hname
    · rcases htouched with hdirty | ⟨above, _, n, hpos, hlt, _⟩
      · exact absurd hdirty (by decide)
      · omega
    · cases hlist

end GraphDoc
