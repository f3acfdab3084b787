import GraphDoc.Proofs.Input.Listed
import GraphDoc.Proofs.Input.Pruned

/-!
# GraphDoc.Proofs.Input.Tracking

What goes when other paths were touched.

What was touched adds up: a value that is no object, or that goes as it is, goes with
the paths of two sets exactly if it goes with those of one of them
(`run_request_union`).  So more touched paths take nothing out of an input and change
nothing in it.  Where all entries at the top were touched, a change is the same as
where no touched paths are known, unless values are compared with their defaults
(`run_request_all_touched`).
-/

namespace GraphDoc

/-! ## two sets of touched paths -/

section

variable {left right dirty : List Text} {path : Text} {v : Value}

/-- What one of two sets touches is touched by both together. -/
theorem touched_union (hunion : ∀ d, d ∈ dirty ↔ d ∈ left ∨ d ∈ right) :
    Touched dirty path ↔ Touched left path ∨ Touched right path := by
  simp only [Touched, hunion, or_and_right, exists_or]
  exact or_or_or_comm

/-- Below a path two sets touch what one of them touches there. -/
theorem touchedBelow_union (hunion : ∀ d, d ∈ dirty ↔ d ∈ left ∨ d ∈ right) :
    TouchedBelow dirty path ↔ TouchedBelow left path ∨ TouchedBelow right path := by
  simp only [TouchedBelow, hunion, or_and_right, exists_or]

/-- A value goes with two sets exactly if it goes with one of them. -/
theorem goes_union (hunion : ∀ d, d ∈ dirty ↔ d ∈ left ∨ d ∈ right) :
    Goes dirty path v ↔ Goes left path v ∨ Goes right path v := by
  simp only [Goes, touched_union hunion, touchedBelow_union hunion]
  tauto

/-- More paths touch no less. -/
theorem Touched.mono (h : Touched left path) (hsub : left ⊆ dirty) : Touched dirty path :=
  h.imp (fun hmem => hsub hmem) fun ⟨above, hmem, habove⟩ => ⟨above, hsub hmem, habove⟩

/-- More paths touch no less below a path. -/
theorem TouchedBelow.mono (h : TouchedBelow left path) (hsub : left ⊆ dirty) :
    TouchedBelow dirty path :=
  let ⟨d, hmem, hbelow⟩ := h
  ⟨d, hsub hmem, hbelow⟩

/-- With more paths no less goes. -/
theorem Goes.mono (h : Goes left path v) (hsub : left ⊆ dirty) : Goes dirty path v :=
  ⟨h.1, h.2.imp (fun htouched => htouched.mono hsub) fun hlist => ⟨hlist.1, hlist.2.mono hsub⟩⟩

end

namespace Preparation

variable {p : Preparation} {left right dirty : List Text} {path : Text} {names : List Text}
  {ms : Members} {v w : Value}

/-- The same preparation where other paths were touched. -/
def touching (p : Preparation) (dirty : List Text) : Preparation := { p with dirty := some dirty }

@[simp] theorem touching_dirty (p : Preparation) (dirty : List Text) :
    (p.touching dirty).dirty = some dirty := rfl

@[simp] theorem touching_excluded (p : Preparation) (dirty : List Text) :
    (p.touching dirty).excluded = p.excluded := rfl

/-- An object is gone into for what was touched at it, above it or below it. -/
theorem touching_enters_iff :
    (p.touching dirty).Enters path ↔ Touched dirty path ∨ TouchedBelow dirty path := by
  simp [Enters]

/-- Where more was touched, more goes. -/
theorem touching_admits (hsub : left ⊆ dirty) : (p.touching dirty).Admits (p.touching left) where
  always := rfl
  excluded := rfl
  reaches path h := by
    rw [reaches_iff rfl] at h ⊢
    exact h.imp (fun htouched => htouched.mono hsub) fun hbelow => hbelow.mono hsub
  value path v w hv h := by
    rw [value_eq_some_iff rfl hv] at h ⊢
    exact ⟨h.1, h.2.mono hsub⟩

/-! ## what adds up -/

/-- The walk goes on into all objects along names with the paths of two sets if it does so with
those of one of them: it is the last of the objects that decides. -/
theorem enters_trail_union (hunion : ∀ d, d ∈ dirty ↔ d ∈ left ∨ d ∈ right)
    (hnames : ∀ name ∈ names, name ≠ []) :
    (∀ place ∈ trail [] names, (p.touching dirty).Enters place.path) ↔
      (∀ place ∈ trail [] names, (p.touching left).Enters place.path) ∨
        ∀ place ∈ trail [] names, (p.touching right).Enters place.path := by
  rw [enters_trail_iff hnames, enters_trail_iff hnames, enters_trail_iff hnames]
  simp only [touching_enters_iff, touched_union hunion, touchedBelow_union hunion]
  tauto

/-- An entry that always goes is carried by two sets exactly if one of them carries it.
-/
theorem carries_union (hunion : ∀ d, d ∈ dirty ↔ d ∈ left ∨ d ∈ right)
    (hnames : ∀ name ∈ names, name ≠ []) :
    (p.touching dirty).Carries [] names ↔
      (p.touching left).Carries [] names ∨ (p.touching right).Carries [] names := by
  have hentered : ∀ {before place behind}, trail [] names = before ++ place :: behind →
      ((∀ other ∈ before, (p.touching dirty).Enters other.path) ↔
        (∀ other ∈ before, (p.touching left).Enters other.path) ∨
          ∀ other ∈ before, (p.touching right).Enters other.path) := by
    intro before place behind htrail
    obtain ⟨above, key, rest, rfl, rfl, _⟩ := trail_eq_append_cons htrail
    exact enters_trail_union hunion fun name hname => hnames name (List.mem_append_left _ hname)
  constructor
  · rintro ⟨before, place, behind, htrail, halways, henters, hadmitted⟩
    exact ((hentered htrail).1 henters).imp
      (fun h => ⟨before, place, behind, htrail, halways, h, hadmitted⟩)
      fun h => ⟨before, place, behind, htrail, halways, h, hadmitted⟩
  · rintro (⟨before, place, behind, htrail, halways, henters, hadmitted⟩ |
      ⟨before, place, behind, htrail, halways, henters, hadmitted⟩)
    · exact ⟨before, place, behind, htrail, halways, (hentered htrail).2 (.inl henters), hadmitted⟩
    · exact ⟨before, place, behind, htrail, halways, (hentered htrail).2 (.inr henters), hadmitted⟩

/-- **What adds up**: a value that is no object, or that stands behind an entry that always
goes, goes with the paths of two sets exactly if it goes with those of one of them. -/
theorem yields_union (hunion : ∀ d, d ∈ dirty ↔ d ∈ left ∨ d ∈ right)
    (hnames : ∀ name ∈ names, name ≠ []) (hsome : names ≠ [])
    (hv : (∀ ms, v ≠ .obj ms) ∨ ∃ place ∈ trail [] names, place.Listed p.always) :
    (p.touching dirty).Yields [] names v w ↔
      (p.touching left).Yields [] names v w ∨ (p.touching right).Yields [] names v w := by
  by_cases hlisted : ∃ place ∈ trail [] names, place.Listed p.always
  · have hcarries := fun dirty =>
      yields_iff_carries (p := p.touching dirty) (v := v) (w := w) hlisted
    rw [hcarries, hcarries, hcarries, carries_union hunion hnames, or_and_right]
  · have hobj := hv.resolve_right hlisted
    by_cases hw : w = v
    · have hunlisted : ∀ place ∈ trail (dotted []) names, ¬ place.Listed p.always :=
        fun place hplace halways => hlisted ⟨place, hplace, halways⟩
      have hgoes := fun dirty => yields_iff_of_unlisted (u := v) (touching_dirty p dirty) []
        hnames hsome hobj hunlisted
      simp only [dotted_nil, List.nil_append, touching_excluded] at hgoes
      rw [hw, hgoes, hgoes, hgoes, goes_union hunion]
      tauto
    · have hnone : ∀ dirty, ¬ (p.touching dirty).Yields [] names v w :=
        fun dirty h => hw (h.eq_of_not_obj hobj)
      exact iff_of_false (hnone dirty) (not_or.2 ⟨hnone left, hnone right⟩)

/-! ## all entries at the top -/

/-- The same preparation where no touched paths are known. -/
def untracking (p : Preparation) : Preparation := { p with dirty := none }

/-- Inside what was touched: the path is not the top, and it or one above it was
touched. -/
def Inside (dirty : List Text) (path : Text) : Prop := path ≠ [] ∧ Touched dirty path

/-- Inside what was touched everything below is inside, too. -/
theorem Inside.below (h : Inside dirty path) (key : Text) :
    Inside dirty (GraphDoc.below path key) := by
  have hextends := extends_below h.1 key
  exact ⟨hextends.ne_nil, h.2.of_extends hextends⟩

/-- A change clears a field exactly if it was touched. -/
theorem clears_of_change (hchange : p.operation ≠ .create) (path : Text) :
    p.clears path = p.touched path := by
  rw [clears]
  cases hoperation : p.operation with
  | create => exact absurd hoperation hchange
  | _ => rfl

/-- Nothing equals a default value where there are none. -/
theorem isDefault_of_null (hdefaults : p.defaults = .null) (path : Text) (v : Value) :
    p.isDefault path v = false := by
  have hnone : Value.null.at? path = none :=
    Value.follow?_of_not_obj (by simp) (segments_ne_nil path)
  rw [isDefault, hdefaults, hnone]

/-- Without default values the same goes of a change at the touched paths as where no
touched paths are known. -/
theorem touching_agreesAt (hchange : p.operation ≠ .create) (hdefaults : p.defaults = .null) :
    (p.touching dirty).AgreesAt p.untracking (Inside dirty) := by
  have htouched : ∀ path, Inside dirty path → (p.touching dirty).touched path = true :=
    fun path h => (touched_iff rfl).2 h.2
  have huntracked : ∀ path, p.untracking.touched path = true := fun _ => rfl
  have hreaches : ∀ path, Inside dirty path →
      (p.touching dirty).reaches path = p.untracking.reaches path := fun path h => by
    rw [reaches, reaches, htouched path h, huntracked, Bool.true_or, Bool.true_or]
  refine ⟨rfl, rfl, hreaches, fun path v h hv => ?_⟩
  rcases v.cases_primitive with rfl | ⟨items, rfl⟩ | ⟨ms, rfl⟩ | hprimitive
  · simp [value]
  · rw [value, value, hreaches path h]
  · exact absurd rfl (hv ms)
  · have hclears : (p.touching dirty).clears path = p.untracking.clears path := by
      rw [clears_of_change (p := p.touching dirty) hchange,
        clears_of_change (p := p.untracking) hchange, htouched path h, huntracked]
    have hchanges : (p.touching dirty).changes path v = p.untracking.changes path v := by
      have hdefault : p.untracking.isDefault path v = false := isDefault_of_null hdefaults path v
      have htracks : (p.touching dirty).tracks = true ∧ p.untracking.tracks = false := ⟨rfl, rfl⟩
      simp [changes, htracks, htouched path h, hdefault]
    rw [value_primitive hprimitive, value_primitive hprimitive, hclears, hchanges]

end Preparation

/-! ## requests -/

/-- **More touched paths**: a value that is no object, or that stands behind an entry that
always goes, is in the input with the paths of two sets exactly if it is in the input with
those of one of them, and it is the same there.  So what goes with fewer touched paths is
left of what goes with more. -/
theorem run_request_union (p : Preparation) {left right dirty : List Text}
    (hunion : ∀ d, d ∈ dirty ↔ d ∈ left ∨ d ∈ right) {values : Members}
    (hvalues : Throughout Keyed values) :
    ∃ both first second,
      ((p.touching dirty).request values).run = .ok both ∧
      ((p.touching left).request values).run = .ok first ∧
      ((p.touching right).request values).run = .ok second ∧
      (∀ names v, (Value.obj values).follow? names = some v →
        ((∀ ms, v ≠ .obj ms) ∨ ∃ place ∈ trail [] names, place.Listed p.always) →
          ∀ w, (Value.obj both).follow? names = some w ↔
            (Value.obj first).follow? names = some w ∨
              (Value.obj second).follow? names = some w) ∧
      Pruned p.always [] first both ∧ Pruned p.always [] second both := by
  have hleft : left ⊆ dirty := fun d hd => (hunion d).2 (.inl hd)
  have hright : right ⊆ dirty := fun d hd => (hunion d).2 (.inr hd)
  refine ⟨_, _, _, (p.touching dirty).run_request values, (p.touching left).run_request values,
    (p.touching right).run_request values, fun names v hv hwhole w => ?_,
    (Preparation.touching_admits hleft).pruned [] values,
    (Preparation.touching_admits hright).pruned [] values⟩
  have hsome : names ≠ [] := by
    rintro rfl
    cases hv
    simp at hwhole
  have hnames := (hvalues.mono fun _ hkeyed => hkeyed.named).forall_mem_names hv
  have hdistinct := hvalues.mono fun _ hkeyed => hkeyed.distinct
  have hfollow : ∀ dirty, (Value.obj ((p.touching dirty).run values)).follow? names = some w ↔
      (p.touching dirty).Yields [] names v w := fun dirty => by
    rw [Preparation.run, Preparation.follow?_members_iff hdistinct hsome]
    simp only [hv, Option.some.injEq, exists_eq_left']
  rw [hfollow, hfollow, hfollow, Preparation.yields_union hunion hnames hsome hwhole]

namespace Account

theorem keyed_profile : Throughout Keyed profile := by
  refine .intro (by decide) fun key inner hmem => ?_
  simp only [profile, List.mem_cons, Prod.mk.injEq, reduceCtorEq, and_false, Value.obj.injEq,
    List.not_mem_nil, or_false, false_or] at hmem
  obtain ⟨_, rfl⟩ := hmem
  exact .intro (by decide) (by simp [fields])

end Account

/-- The name of an account goes with the paths of both sets since it goes with those of the
second one, and what goes with those of the first one is left of it. -/
theorem run_request_union_account :
    (∀ d : Text, d ∈ (["name", "settings.secret"] : List Text) ↔
      d ∈ (["settings.secret"] : List Text) ∨ d ∈ (["name"] : List Text)) ∧
    Throughout Keyed Account.profile ∧
    ∃ both, (((Account.patch none ["theme"] []).touching
          ["name", "settings.secret"]).request Account.profile).run = .ok both ∧
      (Value.obj both).follow? ["name"] = some (.str "Ada") ∧
      Pruned ["theme"] []
        [("settings", .obj [("theme", .str "dark"), ("secret", .str "s")])] both := by
  have hunion : ∀ d : Text, d ∈ (["name", "settings.secret"] : List Text) ↔
      d ∈ (["settings.secret"] : List Text) ∨ d ∈ (["name"] : List Text) := by
    simp [or_comm]
  obtain ⟨both, first, second, hboth, hfirst, hsecond, hadds, hpruned, _⟩ :=
    run_request_union (Account.patch none ["theme"] []) hunion Account.keyed_profile
  have hsecret : (((Account.patch none ["theme"] []).touching ["settings.secret"]).request
      Account.profile).run =
        .ok [("settings", .obj [("theme", .str "dark"), ("secret", .str "s")])] := rfl
  have hname : (((Account.patch none ["theme"] []).touching ["name"]).request
      Account.profile).run = .ok [("name", .str "Ada")] := rfl
  cases ok_unique hfirst hsecret
  cases ok_unique hsecond hname
  have hgoes := hadds ["name"] (.str "Ada") rfl (.inl (by simp)) (.str "Ada")
  exact ⟨hunion, Account.keyed_profile, both, hboth, hgoes.2 (.inr rfl), hpruned⟩

/-- **All touched**: where each entry at the top of the values was touched, a change that
has no default values is the same as where no touched paths are known. -/
theorem run_request_all_touched (p : Preparation) (hchange : p.operation ≠ .create)
    (hdefaults : p.defaults = .null) {dirty : List Text} {values : Members}
    (hnames : ∀ key ∈ Assoc.keys values, key ≠ []) (hall : ∀ key ∈ Assoc.keys values, key ∈ dirty) :
    ∃ result, ((p.touching dirty).request values).run = .ok result ∧
      (p.untracking.request values).run = .ok result := by
  have hagrees : (p.touching dirty).AgreesAt p.untracking (Preparation.Inside dirty) :=
    Preparation.touching_agreesAt hchange hdefaults
  have hkeys : ∀ key ∈ Assoc.keys values, Preparation.Inside dirty (below [] key) :=
    fun key hkey => ⟨hnames key hkey, .inl (hall key hkey)⟩
  refine ⟨_, (p.touching dirty).run_request values, ?_⟩
  rw [p.untracking.run_request]
  exact congrArg Except.ok (hagrees.members_eq (fun _ key h => h.below key) hkeys).symm

/-- All of an account goes but its secret and what was never filled in, whether both entries
were touched or no touched paths are known. -/
theorem run_request_all_touched_account :
    (∀ key ∈ Assoc.keys Account.profile, key ≠ []) ∧
    (∀ key ∈ Assoc.keys Account.profile, key ∈ (["settings", "name"] : List Text)) ∧
    (((Account.patch none [] ["secret"]).touching ["settings", "name"]).request
        Account.profile).run =
      .ok [("name", .str "Ada"), ("settings", .obj [("theme", .str "dark")])] ∧
    ((Account.patch none [] ["secret"]).untracking.request Account.profile).run =
      .ok [("name", .str "Ada"), ("settings", .obj [("theme", .str "dark")])] := by
  have hnames : ∀ key ∈ Assoc.keys Account.profile, key ≠ [] := by decide
  have hall : ∀ key ∈ Assoc.keys Account.profile, key ∈ (["settings", "name"] : List Text) := by
    decide
  have hchange : (Account.patch none [] ["secret"]).operation ≠ .create := by decide
  have hvalue : ((Account.patch none [] ["secret"]).untracking.request Account.profile).run =
      .ok [("name", .str "Ada"), ("settings", .obj [("theme", .str "dark")])] := rfl
  obtain ⟨result, htouching, huntracking⟩ :=
    run_request_all_touched (Account.patch none [] ["secret"]) hchange rfl hnames hall
  cases ok_unique huntracking hvalue
  exact ⟨hnames, hall, htouching, hvalue⟩

end GraphDoc
