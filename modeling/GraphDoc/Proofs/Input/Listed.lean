import GraphDoc.Proofs.Input.Arrival
import GraphDoc.Proofs.Input.Touched

/-!
# GraphDoc.Proofs.Input.Listed

What goes or stays behind by its name or its path.

An entry that always goes is taken as it is, with all that is in it, if the walk
comes to it (`Preparation.Carries`).  Such an entry can hold what is excluded, and
what was never filled in; nothing else in the input does
(`Preparation.Yields.admits`, `Preparation.yields_missing_iff`).  The walk comes to
it where it stands at the top, or where something was touched at the object that it
stands in, above that object or below it (`Preparation.carries_iff`).
-/

namespace GraphDoc

namespace Preparation

variable {p : Preparation} {path other key : Text} {names rest : List Text} {v w : Value}

/-! ## going on into objects -/

/-- The walk goes on into an object at a path: the touched paths are not known, or
the path was touched, or one above or below it. -/
def Enters (p : Preparation) (path : Text) : Prop :=
  ∀ dirty, p.dirty = some dirty → Touched dirty path ∨ TouchedBelow dirty path

/-- An object is gone into exactly if the walk reaches it. -/
theorem enters_iff : p.Enters path ↔ p.reaches path = true := by
  cases hdirty : p.dirty with
  | none => simp [Enters, reaches, touched, hdirty]
  | some dirty => simp [Enters, reaches_iff hdirty, hdirty]

/-- The walk goes on into every object above one that it goes on into. -/
theorem Enters.of_extends (h : p.Enters other) (habove : Extends path other) : p.Enters path :=
  fun dirty hdirty => touched_or_below_of_extends habove (h dirty hdirty)

/-- Where no name is empty, the walk goes on into all objects along names if it does
so into the last of them. -/
theorem enters_trail_iff (hnames : ∀ name ∈ names, name ≠ []) :
    (∀ place ∈ trail [] names, p.Enters place.path) ↔ names = [] ∨ p.Enters (dotted names) := by
  constructor
  · intro henters
    rcases List.eq_nil_or_concat' names with rfl | ⟨above, key, rfl⟩
    · exact .inl rfl
    · have hlast := henters ⟨key, pathAlong [] (above ++ [key])⟩ (by simp [trail_append_cons])
      rw [pathAlong_eq_dotted hnames] at hlast
      exact .inr hlast
  · rintro (rfl | henters) place hplace
    · simp at hplace
    · obtain ⟨before, behind, htrail⟩ := List.append_of_mem hplace
      obtain ⟨above, key, rest, rfl, _, rfl⟩ := trail_eq_append_cons htrail
      rw [List.append_cons] at hnames henters
      rw [pathAlong_eq_dotted fun name hname => hnames name (List.mem_append_left rest hname)]
      by_cases hrest : rest = []
      · rwa [hrest, List.append_nil] at henters
      · exact henters.of_extends ⟨dotted rest, dotted_append (by simp) hrest⟩

/-! ## entries that always go -/

/-- Along names, or at their end, is an entry that goes as it is: it always goes, the
walk goes on into the objects that it is in, and neither they nor it are excluded. -/
def Carries (p : Preparation) (path : Text) (names : List Text) : Prop :=
  ∃ before place behind, trail path names = before ++ place :: behind ∧ place.Listed p.always ∧
    (∀ other ∈ before, p.Enters other.path) ∧
      ∀ other ∈ before ++ [place], ¬ other.Listed p.excluded

/-- Along no names there is no entry. -/
theorem not_carries_nil : ¬ p.Carries path [] := by
  rintro ⟨before, place, behind, htrail, _⟩
  simp at htrail

/-- One step of the way. -/
theorem carries_cons :
    p.Carries path (key :: rest) ↔
      ¬ Place.Listed ⟨key, below path key⟩ p.excluded ∧
        (Place.Listed ⟨key, below path key⟩ p.always ∨
          (p.reaches (below path key) = true ∧ p.Carries (below path key) rest)) := by
  rw [Carries, exists_trail_cons, Carries]
  simp only [List.nil_append, List.cons_append, List.forall_mem_cons, enters_iff]
  grind

/-- What is behind an entry that goes as it is, goes as it is. -/
theorem Carries.yields_iff (h : p.Carries path names) : p.Yields path names v w ↔ w = v := by
  induction names generalizing path with
  | nil => exact absurd h not_carries_nil
  | cons key rest ih =>
      rw [carries_cons] at h
      rw [yields_cons]
      obtain ⟨hadmitted, hcarries⟩ := h
      by_cases halways : Place.Listed ⟨key, below path key⟩ p.always
      · simp [hadmitted, halways]
      · obtain ⟨hentered, hrest⟩ := hcarries.resolve_left halways
        have hsome : rest ≠ [] := fun hnil => not_carries_nil (hnil ▸ hrest)
        simp [hadmitted, halways, hentered, hsome, ih hrest]

/-- Such an entry, and what is in it, is in the input as it is among the values. -/
theorem Carries.follow?_run (h : p.Carries [] names) {values : Members}
    (hvalues : (Value.obj values).Distinct) :
    (Value.obj (p.run values)).follow? names = (Value.obj values).follow? names := by
  have hsome : names ≠ [] := fun hnil => not_carries_nil (hnil ▸ h)
  apply Option.ext
  intro w
  simp [follow?_run_iff hvalues hsome, h.yields_iff]

/-- What goes from behind an entry that always goes, goes because one is carried. -/
theorem Yields.carries (h : p.Yields path names v w)
    (hlisted : ∃ place ∈ trail path names, place.Listed p.always) : p.Carries path names := by
  induction names generalizing path with
  | nil => exact absurd h not_yields_nil
  | cons key rest ih =>
      rw [yields_cons] at h
      rw [carries_cons]
      simp only [trail_cons, List.exists_mem_cons_iff] at hlisted
      refine ⟨h.1, ?_⟩
      rcases h.2 with ⟨halways, _⟩ | ⟨halways, ⟨rfl, _⟩ | ⟨hentered, hyields⟩⟩
      · exact .inl halways
      · simp [halways] at hlisted
      · exact .inr ⟨hentered, ih hyields (hlisted.resolve_left halways)⟩

/-- So where an entry on the way always goes, what goes is what is carried, as it is. -/
theorem yields_iff_carries (hlisted : ∃ place ∈ trail path names, place.Listed p.always) :
    p.Yields path names v w ↔ p.Carries path names ∧ w = v :=
  ⟨fun h => ⟨h.carries hlisted, (h.carries hlisted).yields_iff.1 h⟩,
    fun h => h.1.yields_iff.2 h.2⟩

/-- Where no name is empty and nothing along names is excluded, an entry is carried
that stands at the top, or in an object that the walk goes on into. -/
theorem carries_iff (hnames : ∀ name ∈ names, name ≠ [])
    (hadmitted : ∀ place ∈ trail [] names, ¬ place.Listed p.excluded) :
    p.Carries [] names ↔
      ∃ above key rest, names = above ++ key :: rest ∧
        Place.Listed ⟨key, dotted (above ++ [key])⟩ p.always ∧
          (above = [] ∨ p.Enters (dotted above)) := by
  have hsplit : ∀ {above key rest}, names = above ++ key :: rest →
      (∀ name ∈ above, name ≠ []) ∧ ∀ name ∈ above ++ [key], name ≠ [] := by
    rintro above key rest rfl
    rw [List.append_cons] at hnames
    have hkey : ∀ name ∈ above ++ [key], name ≠ [] := fun name hname =>
      hnames name (List.mem_append_left rest hname)
    exact ⟨fun name hname => hkey name (List.mem_append_left [key] hname), hkey⟩
  constructor
  · rintro ⟨before, place, behind, htrail, halways, hentered, _⟩
    obtain ⟨above, key, rest, hsome, rfl, rfl⟩ := trail_eq_append_cons htrail
    obtain ⟨habove, hkey⟩ := hsplit hsome
    rw [pathAlong_eq_dotted hkey] at halways
    exact ⟨above, key, rest, hsome, halways, (enters_trail_iff habove).1 hentered⟩
  · rintro ⟨above, key, rest, hsome, halways, hentered⟩
    obtain ⟨habove, hkey⟩ := hsplit hsome
    have htrail := trail_append_cons [] above key rest
    rw [← hsome, pathAlong_eq_dotted hkey] at htrail
    refine ⟨_, _, _, htrail, halways, (enters_trail_iff habove).2 hentered, fun other hother => ?_⟩
    refine hadmitted other (htrail ▸ ?_)
    simp only [List.mem_append, List.mem_cons] at hother ⊢
    tauto

/-! ## what is excluded, what was never filled in -/

/-- An entry that goes is excluded only inside one that always goes. -/
theorem Yields.admits (h : p.Yields path names v w) {before behind : List Place} {place : Place}
    (htrail : trail path names = before ++ place :: behind)
    (hbefore : ∀ other ∈ before, ¬ other.Listed p.always) : ¬ place.Listed p.excluded := by
  induction names generalizing path before with
  | nil => simp at htrail
  | cons key rest ih =>
      rw [yields_cons] at h
      rw [trail_cons, List.cons_eq_append_iff] at htrail
      rcases htrail with ⟨rfl, hplace⟩ | ⟨others, rfl, hrest⟩
      · obtain ⟨rfl, -⟩ := List.cons.inj hplace
        exact h.1
      · rw [List.forall_mem_cons] at hbefore
        rcases h.2 with ⟨halways, _⟩ | ⟨_, ⟨rfl, _⟩ | ⟨_, hyields⟩⟩
        · exact absurd halways hbefore.1
        · simp at hrest
        · exact ih hyields hrest hbefore.2

/-- What goes was filled in. -/
theorem value_ne_missing : p.value path v ≠ some .missing := by
  intro h
  rcases v.obj_or_not with ⟨ms, rfl⟩ | hobj
  · obtain ⟨_, _, hkept⟩ := value_obj_eq_some.1 h
    cases hkept
  · cases eq_of_value_eq_some hobj h
    simp [value] at h

/-- What was never filled in goes only as part of an entry that always goes. -/
theorem yields_missing_iff :
    p.Yields path names v .missing ↔ v = .missing ∧ p.Carries path names := by
  constructor
  · intro hyields
    have hyields' := hyields
    obtain ⟨before, place, behind, htrail, _, ⟨halways, rfl⟩ | ⟨_, _, hvalue⟩⟩ := hyields
    · exact ⟨rfl, hyields'.carries ⟨place, by simp [htrail], halways⟩⟩
    · exact absurd hvalue value_ne_missing
  · rintro ⟨rfl, hcarries⟩
    exact hcarries.yields_iff.2 rfl

end Preparation

/-! ## what is excluded -/

/-- **Excluded entries**: whatever is asked for, no entry of the input is excluded by
its name or by its path, unless it is inside of one that always goes; and of such a
one everything goes.  The path is the dotted one of the names
(`pathAlong_eq_dotted`). -/
theorem run_request_excluded (p : Preparation) {values : Members}
    (hvalues : (Value.obj values).Distinct) :
    ∃ result, (p.request values).run = .ok result ∧
      (∀ above key w, (Value.obj result).follow? (above ++ [key]) = some w →
        (∀ place ∈ trail [] above, ¬ place.Listed p.always) →
          key ∉ p.excluded ∧ pathAlong [] (above ++ [key]) ∉ p.excluded) ∧
      ∀ names, p.Carries [] names →
        (Value.obj result).follow? names = (Value.obj values).follow? names := by
  refine ⟨_, p.run_request values, fun above key w hw hinside => ?_,
    fun names hcarries => hcarries.follow?_run hvalues⟩
  obtain ⟨v, _, hyields⟩ := (Preparation.follow?_run_iff hvalues (by simp)).1 hw
  exact not_or.1 (hyields.admits (trail_append_cons [] above key []) hinside)

namespace Account

/-- The fields of an account of which one was never filled in. -/
def fields : Members := [("theme", .str "dark"), ("secret", .str "s"), ("language", .missing)]

/-- An account with these fields among its settings. -/
def profile : Members := [("name", .str "Ada"), ("settings", .obj fields)]

/-- The patch of an account where some names or paths always go or never go. -/
def patch (dirty : Option (List Text)) (always excluded : List Text) : Preparation where
  operation := .patch
  dirty := dirty
  always := always
  excluded := excluded

theorem distinct_profile : (Value.obj profile).Distinct := by
  have hplain : ∀ m ∈ fields, m.2.Plain := by
    simp only [fields, List.forall_mem_cons]
    exact ⟨⟨by simp, by simp⟩, ⟨by simp, by simp⟩, ⟨by simp, by simp⟩, by simp⟩
  refine .obj (by decide) (List.forall_mem_cons.2 ⟨.plain ⟨by simp, by simp⟩, ?_⟩)
  exact List.forall_mem_singleton.2 (.obj (by decide) fun m hm => .plain (hplain m hm))

end Account

/-- The theme goes with an account whose secret stays behind, and it is not
excluded. -/
theorem run_request_excluded_account :
    (Value.obj Account.profile).Distinct ∧
    ∃ result, ((Account.patch none ["name"] ["secret"]).request Account.profile).run = .ok result ∧
      (Value.obj result).follow? ["settings", "theme"] = some (.str "dark") ∧
      ("theme" : Text) ∉ (Account.patch none ["name"] ["secret"]).excluded := by
  obtain ⟨result, hrun, hexcluded, _⟩ :=
    run_request_excluded (Account.patch none ["name"] ["secret"]) Account.distinct_profile
  have hvalue : ((Account.patch none ["name"] ["secret"]).request Account.profile).run =
      .ok [("name", .str "Ada"), ("settings", .obj [("theme", .str "dark")])] := rfl
  cases ok_unique hrun hvalue
  refine ⟨Account.distinct_profile, _, hvalue, rfl,
    (hexcluded ["settings"] "theme" (.str "dark") rfl ?_).1⟩
  decide

/-- Not every entry that is excluded stays behind: one goes with the settings that
always go. -/
theorem not_all_excluded_dropped :
    ¬ ∀ (p : Preparation) (values result : Members) (above : List Text) (key : Text) (w : Value),
      (Value.obj values).Distinct → (p.request values).run = .ok result →
        (Value.obj result).follow? (above ++ [key]) = some w →
          key ∉ p.excluded ∧ dotted (above ++ [key]) ∉ p.excluded := by
  intro h
  have hvalue : ((Account.patch none ["settings"] ["secret"]).request Account.profile).run =
      .ok Account.profile := rfl
  have hsecret := (h _ _ _ ["settings"] "secret" (.str "s") Account.distinct_profile hvalue rfl).1
  exact absurd hsecret (by decide)

/-! ## what always goes -/

/-- **Entries that always go**: an entry whose path always goes, and which is not
excluded and in nothing that is, is in the input with the same value exactly if it,
or an object that it is in, is an entry that always goes and stands at the top or in
an object that the walk goes on into.  Else it is not in the input at all. -/
theorem run_request_always (p : Preparation) {values : Members}
    (hvalues : (Value.obj values).Distinct) :
    ∃ result, (p.request values).run = .ok result ∧
      ∀ names v, names ≠ [] → (∀ name ∈ names, name ≠ []) →
        (Value.obj values).follow? names = some v → dotted names ∈ p.always →
          (∀ place ∈ trail [] names, ¬ place.Listed p.excluded) →
            ((Value.obj result).follow? names = some v ↔
              ∃ above key rest, names = above ++ key :: rest ∧
                Place.Listed ⟨key, dotted (above ++ [key])⟩ p.always ∧
                  (above = [] ∨ p.Enters (dotted above))) ∧
            ∀ w, (Value.obj result).follow? names = some w → w = v := by
  refine ⟨_, p.run_request values, fun names v hsome hnames hv halways hadmitted => ?_⟩
  have hlisted : ∃ place ∈ trail [] names, place.Listed p.always := by
    obtain ⟨above, key, rfl⟩ := (List.eq_nil_or_concat' names).resolve_left hsome
    rw [← pathAlong_eq_dotted hnames] at halways
    exact ⟨⟨key, pathAlong [] (above ++ [key])⟩, by simp [trail_append_cons], .inr halways⟩
  have hresult : ∀ w, (Value.obj (p.run values)).follow? names = some w ↔
      p.Carries [] names ∧ w = v := by
    intro w
    simp only [Preparation.follow?_run_iff hvalues hsome, hv, Option.some.injEq, exists_eq_left',
      Preparation.yields_iff_carries hlisted]
  rw [← Preparation.carries_iff hnames hadmitted]
  exact ⟨by rw [hresult]; simp, fun w hw => ((hresult w).1 hw).2⟩

/-- The theme always goes, and it goes since something else in the settings was
touched. -/
theorem run_request_always_account :
    (Value.obj Account.profile).Distinct ∧
    ∃ result,
      ((Account.patch (some ["settings.secret"]) ["settings.theme"] []).request
        Account.profile).run = .ok result ∧
      (Value.obj result).follow? ["settings", "theme"] = some (.str "dark") := by
  obtain ⟨result, hrun, halways⟩ :=
    run_request_always (Account.patch (some ["settings.secret"]) ["settings.theme"] [])
      Account.distinct_profile
  have hbelow : TouchedBelow ["settings.secret"] (dotted ["settings"]) :=
    ⟨"settings.secret", by decide, "secret", rfl⟩
  have htheme := halways ["settings", "theme"] (.str "dark") (by simp) (by decide) rfl (by decide)
    (by decide)
  refine ⟨Account.distinct_profile, result, hrun,
    htheme.1.2 ⟨["settings"], "theme", [], rfl, by decide, .inr ?_⟩⟩
  intro dirty hdirty
  cases hdirty
  exact .inr hbelow

/-- Not every entry that always goes is in the input: the theme stays behind with the
settings, in which nothing was touched. -/
theorem not_all_always_kept :
    ¬ ∀ (p : Preparation) (values result : Members) (names : List Text) (v : Value),
      (Value.obj values).Distinct → (∀ name ∈ names, name ≠ []) →
        (Value.obj values).follow? names = some v → dotted names ∈ p.always →
          (∀ place ∈ trail [] names, ¬ place.Listed p.excluded) →
            (p.request values).run = .ok result → (Value.obj result).follow? names = some v := by
  intro h
  have hvalue : ((Account.patch (some ["name"]) ["settings.theme"] []).request
      Account.profile).run = .ok [("name", .str "Ada")] := rfl
  have htheme := h _ _ _ ["settings", "theme"] (.str "dark") Account.distinct_profile (by decide)
    rfl (by decide) (by decide) hvalue
  cases htheme

/-! ## what was never filled in -/

/-- **Entries that were never filled in**: such an entry is in the input exactly if
it is among the values and goes as it is, as an entry that always goes or as a part of
one. -/
theorem run_request_missing (p : Preparation) {values : Members}
    (hvalues : (Value.obj values).Distinct) :
    ∃ result, (p.request values).run = .ok result ∧
      ∀ names, (Value.obj result).follow? names = some .missing ↔
        (Value.obj values).follow? names = some .missing ∧ p.Carries [] names := by
  refine ⟨_, p.run_request values, fun names => ?_⟩
  by_cases hsome : names = []
  · simp [hsome, Value.follow?]
  · simp only [Preparation.follow?_run_iff hvalues hsome, Preparation.yields_missing_iff]
    grind

/-- A language that was never filled in goes with the settings that always go. -/
theorem run_request_missing_account :
    (Value.obj Account.profile).Distinct ∧
    ∃ result, ((Account.patch none ["settings"] []).request Account.profile).run = .ok result ∧
      (Value.obj result).follow? ["settings", "language"] = some .missing := by
  obtain ⟨result, hrun, hmissing⟩ :=
    run_request_missing (Account.patch none ["settings"] []) Account.distinct_profile
  refine ⟨Account.distinct_profile, result, hrun, (hmissing ["settings", "language"]).2 ⟨rfl, ?_⟩⟩
  exact ⟨[], ⟨"settings", "settings"⟩, [⟨"language", "settings.language"⟩], rfl, by decide,
    by simp, by decide⟩

/-- Not every entry that was never filled in stays behind: a name goes that always
goes. -/
theorem not_all_missing_dropped :
    ¬ ∀ (p : Preparation) (values result : Members) (names : List Text),
      (Value.obj values).Distinct → (p.request values).run = .ok result →
        (Value.obj result).follow? names ≠ some .missing := by
  intro h
  have hvalue : ((Account.patch (some []) ["name"] []).request [("name", .missing)]).run =
      .ok [("name", .missing)] := rfl
  have hdistinct : (Value.obj [("name", .missing)]).Distinct :=
    .obj (by decide) (List.forall_mem_singleton.2 (.plain ⟨by simp, by simp⟩))
  exact h _ _ _ ["name"] hdistinct hvalue rfl

end GraphDoc
