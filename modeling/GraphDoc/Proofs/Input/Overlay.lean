import GraphDoc.Proofs.Input.Touched
import GraphDoc.Proofs.Value.Same

/-!
# GraphDoc.Proofs.Input.Overlay

What a change without touched paths comes to.

Where touched paths are not known, a change leaves out the values that equal their
defaults.  Laid over the default values (`overlay`) the input of the change comes
to the same as all values would: what was left out is in the default values
(`same_overlay_members`), and where the default values have no object, nothing was
left out (`members_eq_self`).
-/

namespace GraphDoc

/-! ## laying values over others -/

mutual
/-- Members with others laid over them: an object goes over an object part by
part, any other value takes the place of the one below it. -/
def overlay (base : Members) : List (Text × Value) → Members
  | [] => base
  | (key, v) :: rest => overlay (Assoc.put base key (overlayValue (base.lookup key) v)) rest

/-- A value laid over what is below it, if anything. -/
def overlayValue (base : Option Value) : Value → Value
  | .obj ms =>
    match base with
    | some (.obj below) => .obj (overlay below ms)
    | _ => .obj ms
  | v => v
end

variable {base ms : Members} {key : Text} {v w : Value}

/-- What is found under a name is the value there laid over what was found below,
or what was found below if there is none. -/
theorem lookup_overlay (distinct : (Assoc.keys ms).Nodup) (base : Members) (key : Text) :
    (overlay base ms).lookup key =
      ((ms.lookup key).map (overlayValue (base.lookup key))).or (base.lookup key) := by
  induction ms generalizing base with
  | nil => simp [overlay]
  | cons m rest ih =>
      rw [Assoc.keys_cons, List.nodup_cons] at distinct
      rw [overlay, ih distinct.2, lookup_put, lookup_cons_eq_ite]
      by_cases hkey : key = m.1
      · have hnone : rest.lookup key = none := lookup_eq_none_iff.2 (hkey ▸ distinct.1)
        simp [hkey, hkey ▸ hnone]
      · simp [hkey]

/-- Keys stay distinct under what is laid over them. -/
theorem nodup_keys_overlay (h : (Assoc.keys base).Nodup) (ms : Members) :
    (Assoc.keys (overlay base ms)).Nodup := by
  induction ms generalizing base with
  | nil => simpa [overlay] using h
  | cons m rest ih =>
      rw [overlay]
      exact ih (nodup_keys_put h _ _)

/-- A value that is no object replaces what is below it. -/
theorem overlayValue_of_not_obj (h : ∀ ms, v ≠ .obj ms) (below : Option Value) :
    overlayValue below v = v := by
  cases v with
  | obj ms => exact absurd rfl (h ms)
  | _ => rw [overlayValue]; simp

/-- An object is laid over an object member by member. -/
theorem overlayValue_obj (below ms : Members) :
    overlayValue (some (.obj below)) (.obj ms) = .obj (overlay below ms) := by
  rw [overlayValue]

/-- An object that is not laid over an object takes the place. -/
theorem overlayValue_obj_of_not_obj {below : Option Value} (h : ∀ bs, below ≠ some (.obj bs)) :
    overlayValue below (.obj ms) = .obj ms := by
  rw [overlayValue]
  exact h

/-! ## values without touched paths -/

/-- Members that a change can tell by their paths: each name stands once, no name
is empty or has a dot, and each entry was filled in, with no empty object. -/
structure Editable (ms : Members) : Prop where
  keyed : Keyed ms
  undotted : ∀ key ∈ Assoc.keys ms, .char '.' ∉ key
  filled : ∀ m ∈ ms, m.2 ≠ .missing ∧ m.2 ≠ .obj []

namespace Preparation

variable {p : Preparation} {path : Text}

/-- A preparation that names no entries and knows of no touched paths, for any
operation. -/
structure Weighing (p : Preparation) : Prop where
  impartial : p.Impartial
  untracked : p.dirty = none

/-- Where nothing is tracked the walk reaches everything. -/
theorem Weighing.reaches (h : p.Weighing) (path : Text) : p.reaches path = true := by
  simp [Preparation.reaches, touched, h.untracked]

/-- A value is a default exactly if it equals the one at its path. -/
theorem isDefault_iff :
    p.isDefault path v = true ↔ ∃ w, p.defaults.at? path = some w ∧ v.equals w = true := by
  unfold isDefault
  cases p.defaults.at? path <;> simp

/-- A value that clears a field stays behind in a creation, and another primitive if it
equals its default value. -/
theorem Weighing.value_eq_none_iff (h : p.Weighing) (hv : v.Primitive) :
    p.value path v = none ↔
      (v.blank = true ∧ p.operation = .create) ∨
        (v.blank = false ∧ ∃ w, p.defaults.at? path = some w ∧ v.equals w = true) := by
  have htracks : p.tracks = false := by simp [tracks, h.untracked]
  have htouched : p.touched path = true := by simp [touched, h.untracked]
  have hclears : p.clears path = true ↔ p.operation ≠ .create := by
    rw [clears]
    cases p.operation <;> simp [htracks, htouched]
  rw [value_primitive hv, ← isDefault_iff]
  cases hblank : v.blank with
  | true => simp [hclears]
  | false => simp [changes, htracks]

/-- A preparation for a change that knows of no touched paths and compares values with
their defaults instead. -/
structure Comparing (p : Preparation) : Prop where
  impartial : p.Impartial
  untracked : p.dirty = none
  change : p.operation ≠ .create

theorem Comparing.weighing (h : p.Comparing) : p.Weighing := ⟨h.impartial, h.untracked⟩

/-- A value that is no object goes, or it is a plain value that equals its
default. -/
theorem Comparing.value_cases (h : p.Comparing) (hv : ∀ ms, v ≠ .obj ms) (hmissing : v ≠ .missing)
    (path : Text) :
    p.value path v = some v ∨
      (p.value path v = none ∧ v.Plain ∧
        ∃ w, p.defaults.at? path = some w ∧ v.equals w = true) := by
  rcases v.cases_primitive with rfl | ⟨items, rfl⟩ | ⟨ms, rfl⟩ | hprimitive
  · exact absurd rfl hmissing
  · simp [value, h.weighing.reaches]
  · exact absurd rfl (hv ms)
  · cases hgoes : p.value path v with
    | some w => exact .inl (congrArg some (eq_of_value_eq_some hv hgoes))
    | none =>
        rcases (h.weighing.value_eq_none_iff hprimitive).1 hgoes with ⟨_, hcreate⟩ | ⟨_, hdefault⟩
        · exact absurd hcreate h.change
        · exact .inr ⟨rfl, hprimitive.toPlain, hdefault⟩

/-! ## default values along the way -/

/-- Names that a path tells: none is empty or has a dot. -/
def Told (names : List Text) : Prop := ∀ name ∈ names, name ≠ [] ∧ .char '.' ∉ name

instance (names : List Text) : Decidable (Told names) :=
  inferInstanceAs (Decidable (∀ name ∈ names, name ≠ [] ∧ .char '.' ∉ name))

/-- The key of an editable object can be told behind names that can. -/
theorem Told.concat {names : List Text} (h : Told names) (hms : Editable ms)
    (hkey : key ∈ Assoc.keys ms) : Told (names ++ [key]) := by
  intro name hname
  rcases List.mem_append.1 hname with hname | hname
  · exact h name hname
  · rw [List.mem_singleton.1 hname]
    exact ⟨hms.keyed.named key hkey, hms.undotted key hkey⟩

/-- The default value at a path is the one behind the names of the path. -/
theorem at?_dotted (defaults : Value) {names : List Text} (h : Told names) (hsome : names ≠ []) :
    defaults.at? (dotted names) = defaults.follow? names := by
  rw [Value.at?, segments_dotted (fun name hname => (h name hname).2) hsome]

/-- Where the default values have no object, everything goes. -/
theorem Comparing.members_eq_self (h : p.Comparing) (hms : Throughout Editable ms)
    {above : List Text} (habove : Told above)
    (hnone : ∀ bs, p.defaults.follow? above ≠ some (.obj bs)) :
    p.members (dotted above) ms = ms := by
  induction hms generalizing above with
  | @intro ms here inside ih =>
      have heach : ∀ m ∈ ms, (p.value (below (dotted above) m.1) m.2).map (fun w => (m.1, w)) =
          some m := by
        intro m hm
        have htold : Told (above ++ [m.1]) := habove.concat here (mem_keys_of_mem hm)
        have hnothing := Value.follow?_concat_of_not_obj hnone m.1
        rw [below_dotted (fun name hname => (habove name hname).1)]
        rcases m.2.obj_or_not with ⟨inner, hinner⟩ | hobj
        · have hmembers : p.members (dotted (above ++ [m.1])) inner = inner :=
            ih m.1 inner (hinner ▸ hm) htold (by simp [hnothing])
          have hsome : inner ≠ [] := fun he => (here.filled m hm).2 (by rw [hinner, he])
          have hgoes := value_obj_eq_some.2 ⟨h.weighing.reaches _, hmembers ▸ hsome, rfl⟩
          rw [hinner, hgoes, hmembers, ← hinner]
          rfl
        · rcases h.value_cases hobj (here.filled m hm).1 (dotted (above ++ [m.1])) with
            hgoes | ⟨_, _, w, hw, _⟩
          · rw [hgoes]
            rfl
          · rw [at?_dotted _ htold (by simp), hnothing] at hw
            cases hw
      rw [h.impartial.members_eq, List.filterMap_congr heach, List.filterMap_some]

/-! ## no change is lost -/

variable {above : List Text}

/-- A value that is no object comes to the same over its default value, whether it
goes or stays behind. -/
theorem Comparing.same_overlay_of_not_obj (h : p.Comparing) (hv : ∀ ms, v ≠ .obj ms)
    (hmissing : v ≠ .missing) (hdistinct : v.Distinct) (path : Text) :
    Option.Rel (fun v w => v.same w = true)
      (((p.value path v).map (overlayValue (p.defaults.at? path))).or (p.defaults.at? path))
      (some (overlayValue (p.defaults.at? path) v)) := by
  rw [overlayValue_of_not_obj hv]
  rcases h.value_cases hv hmissing path with hgoes | ⟨hgoes, hplain, w, hw, hequals⟩
  · rw [hgoes, Option.map_some, Option.some_or, overlayValue_of_not_obj hv]
    exact .some hdistinct.same_self
  · rw [hgoes, hw, Option.map_none, Option.none_or]
    exact .some (hplain.same_symm (Value.same_of_equals hequals))

/-- So does an object, if its members do over the members of a default value. -/
theorem Comparing.same_overlay_obj (h : p.Comparing) (habove : Told above) {inner : Members}
    (hinner : Throughout Editable inner) (hsome : inner ≠ [])
    (hdistinct : (Value.obj inner).Distinct)
    (hover : ∀ bs, p.defaults.follow? above = some (.obj bs) →
      (Value.obj (overlay bs (p.members (dotted above) inner))).same (.obj (overlay bs inner)) =
        true) :
    Option.Rel (fun v w => v.same w = true)
      (((p.value (dotted above) (.obj inner)).map (overlayValue (p.defaults.follow? above))).or
        (p.defaults.follow? above))
      (some (overlayValue (p.defaults.follow? above) (.obj inner))) := by
  by_cases hobj : ∃ bs, p.defaults.follow? above = some (.obj bs)
  · obtain ⟨bs, hbs⟩ := hobj
    have hsame := hover bs hbs
    rw [hbs, overlayValue_obj]
    by_cases hkept : p.members (dotted above) inner = []
    · have hgoes : p.value (dotted above) (.obj inner) = none := by
        rw [Option.eq_none_iff_forall_ne_some]
        exact fun w hw => (value_obj_eq_some.1 hw).2.1 hkept
      rw [hkept, overlay] at hsame
      rw [hgoes, Option.map_none, Option.none_or]
      exact .some hsame
    · have hgoes := value_obj_eq_some.2 ⟨h.weighing.reaches (dotted above), hkept, rfl⟩
      rw [hgoes, Option.map_some, Option.some_or, overlayValue_obj]
      exact .some hsame
  · rw [not_exists] at hobj
    have hmembers := h.members_eq_self hinner habove hobj
    have hgoes := value_obj_eq_some.2 ⟨h.weighing.reaches (dotted above), hmembers ▸ hsome, rfl⟩
    rw [hgoes, Option.map_some, Option.some_or, hmembers, overlayValue_obj_of_not_obj hobj]
    exact .some hdistinct.same_self

/-- **No change is lost**: laid over default values, what goes of the values comes to
the same as all of them. -/
theorem Comparing.same_overlay_members (h : p.Comparing) (hms : Throughout Editable ms)
    (hdistinct : (Value.obj ms).Distinct) (habove : Told above) {bs : Members}
    (hbase : p.defaults.follow? above = some (.obj bs)) (hbs : (Value.obj bs).Distinct) :
    (Value.obj (overlay bs (p.members (dotted above) ms))).same (.obj (overlay bs ms)) = true := by
  induction hms generalizing above bs with
  | @intro ms here inside ih =>
      have hnames : (Assoc.keys ms).Nodup := here.keyed.distinct
      have hkept := p.nodup_keys_members hnames (dotted above)
      apply Value.same_obj_of_lookup (nodup_keys_overlay hbs.keys_nodup _)
        (nodup_keys_overlay hbs.keys_nodup _)
      intro key
      rw [lookup_overlay hkept, lookup_overlay hnames, h.impartial.lookup_members hnames]
      cases hu : ms.lookup key with
      | none =>
          cases hw : bs.lookup key with
          | none => exact .none
          | some w => exact .some (hbs.lookup hw).same_self
      | some u =>
          have hmem : (key, u) ∈ ms := Assoc.mem_of_lookup hu
          have htold : Told (above ++ [key]) := habove.concat here (mem_keys_of_mem hmem)
          have hdefault := Value.follow?_concat_obj hbase key
          rw [Option.bind_some, Option.map_some, Option.some_or, ← hdefault,
            below_dotted fun name hname => (habove name hname).1]
          rcases u.obj_or_not with ⟨inner, rfl⟩ | hobj
          · have hinner := hdistinct.lookup hu
            have hsome : inner ≠ [] := fun he => (here.filled _ hmem).2 (by rw [he])
            refine h.same_overlay_obj htold (inside key inner hmem) hsome hinner fun bs' hbs' => ?_
            exact ih key inner hmem hinner htold hbs' (hbs.lookup (hdefault ▸ hbs'))
          · rw [← at?_dotted _ htold (by simp)]
            exact h.same_overlay_of_not_obj hobj (here.filled _ hmem).1 (hdistinct.lookup hu) _

end Preparation

/-- **Changes**: of the values of a change, without touched paths and whatever the
names, nothing is lost that the default values do not have.  Laid over them the
input comes to the same as all values. -/
theorem overlay_run_request {operation : InputOperation} (hchange : operation ≠ .create)
    {defaults values : Members} (hdefaults : (Value.obj defaults).Distinct)
    (hdistinct : (Value.obj values).Distinct) (hvalues : Throughout Editable values) :
    ∃ result,
      (Preparation.request { operation := operation, defaults := .obj defaults } values).run =
        .ok result ∧
      (Value.obj (overlay defaults result)).equals (.obj (overlay defaults values)) = true := by
  have hcomparing : Preparation.Comparing { operation := operation, defaults := .obj defaults } :=
    ⟨⟨rfl, rfl⟩, rfl, hchange⟩
  have htop : Preparation.Told [] := fun name hname => absurd hname List.not_mem_nil
  refine ⟨_, Preparation.run_request _ values, ?_⟩
  exact hcomparing.same_overlay_members hvalues hdistinct htop rfl hdefaults

namespace Account

def settings (theme : Text) : Members := [("theme", .str theme), ("size", .int 2)]

/-- An account with its settings. -/
def withTheme (theme : Text) : Members :=
  [("name", .str "Ada"), ("settings", .obj (settings theme))]

/-- The change of an account with a light theme. -/
def change : Preparation where
  operation := .update
  defaults := .obj (withTheme "light")

theorem distinct_withTheme (theme : Text) : (Value.obj (withTheme theme)).Distinct := by
  have hnames : (["name", "settings"] : List Text).Nodup := by decide
  have hinner : (["theme", "size"] : List Text).Nodup := by decide
  refine .obj hnames (List.forall_mem_cons.2 ⟨.plain ⟨by simp, by simp⟩, ?_⟩)
  refine List.forall_mem_singleton.2 (.obj hinner ?_)
  exact List.forall_mem_cons.2
    ⟨.plain ⟨by simp, by simp⟩, List.forall_mem_singleton.2 (.plain ⟨by simp, by simp⟩)⟩

theorem editable : Throughout Editable (withTheme "dark") := by
  refine .intro ⟨by decide, by decide, by simp [withTheme, settings]⟩ fun key inner hmem => ?_
  simp only [withTheme, List.mem_cons, Prod.mk.injEq, reduceCtorEq, and_false, Value.obj.injEq,
    List.not_mem_nil, or_false, false_or] at hmem
  obtain ⟨_, rfl⟩ := hmem
  exact .intro ⟨by decide, by decide, by simp [settings]⟩ (by simp [settings])

end Account

/-- A dark theme is all that goes, and with it the account comes to the one with the
dark theme. -/
theorem overlay_run_request_account :
    (Account.change.request (Account.withTheme "dark")).run =
        .ok [("settings", .obj [("theme", .str "dark")])] ∧
      (Value.obj (overlay (Account.withTheme "light")
          [("settings", .obj [("theme", .str "dark")])])).equals
        (.obj (overlay (Account.withTheme "light") (Account.withTheme "dark"))) = true := by
  have hvalue : (Account.change.request (Account.withTheme "dark")).run =
      .ok [("settings", .obj [("theme", .str "dark")])] := rfl
  have hchange : InputOperation.update ≠ .create := by decide
  obtain ⟨result, hrun, hequals⟩ := overlay_run_request hchange
    (Account.distinct_withTheme "light") (Account.distinct_withTheme "dark") Account.editable
  cases ok_unique hrun hvalue
  exact ⟨hvalue, hequals⟩

end GraphDoc
