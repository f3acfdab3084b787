import GraphDoc.Proofs.Input.Entries
import GraphDoc.Proofs.Path

/-!
# GraphDoc.Proofs.Input.Arrival

What goes of the value behind some names.

On its way to a value the walk comes by one entry after the other, each of which
has a name and a path (`trail`).  It turns back at an entry that is excluded, takes
one that always goes as it is, and goes on into an object only where something was
touched.  `Preparation.Yields` says so of the whole way at once, and
`Preparation.follow?_members_iff` that this is what is found in what goes.
-/

namespace GraphDoc

/-! ## places -/

/-- Where an entry is: its own name and its path. -/
structure Place where
  name : Text
  path : Text
  deriving DecidableEq

/-- The entry is in a list, by its name or by its path. -/
def Place.Listed (place : Place) (list : List Text) : Prop :=
  place.name ∈ list ∨ place.path ∈ list

instance (place : Place) (list : List Text) : Decidable (place.Listed list) :=
  inferInstanceAs (Decidable (_ ∨ _))

/-- The path that a way along names comes to, below a path. -/
def pathAlong (path : Text) (names : List Text) : Text := names.foldl below path

/-- The places that a way along names comes by, below a path. -/
def trail (path : Text) : List Text → List Place
  | [] => []
  | name :: rest => ⟨name, below path name⟩ :: trail (below path name) rest

@[simp] theorem pathAlong_nil (path : Text) : pathAlong path [] = path := rfl

@[simp] theorem pathAlong_cons (path name : Text) (rest : List Text) :
    pathAlong path (name :: rest) = pathAlong (below path name) rest := rfl

@[simp] theorem trail_nil (path : Text) : trail path [] = [] := rfl

@[simp] theorem trail_cons (path name : Text) (rest : List Text) :
    trail path (name :: rest) = ⟨name, below path name⟩ :: trail (below path name) rest := rfl

@[simp] theorem trail_eq_nil_iff {path : Text} {names : List Text} :
    trail path names = [] ↔ names = [] := by
  cases names <;> simp

/-- The places before and behind a place are those of the names before and behind
its name. -/
theorem trail_eq_append_cons {path : Text} {names : List Text} {before behind : List Place}
    {place : Place} (h : trail path names = before ++ place :: behind) :
    ∃ above key rest, names = above ++ key :: rest ∧ before = trail path above ∧
      place = ⟨key, pathAlong path (above ++ [key])⟩ := by
  induction names generalizing path before with
  | nil => simp at h
  | cons name rest ih =>
      rw [trail_cons, List.cons_eq_append_iff] at h
      rcases h with ⟨rfl, hplace⟩ | ⟨others, rfl, hrest⟩
      · obtain ⟨rfl, -⟩ := List.cons.inj hplace
        exact ⟨[], name, rest, rfl, rfl, rfl⟩
      · obtain ⟨above, key, behind', rfl, rfl, hplace⟩ := ih hrest
        exact ⟨name :: above, key, behind', rfl, rfl, hplace⟩

/-- The first place of a way, or a place of the rest of it. -/
theorem exists_trail_cons {path name : Text} {rest : List Text}
    {Q : List Place → Place → List Place → Prop} :
    (∃ before place behind,
        trail path (name :: rest) = before ++ place :: behind ∧ Q before place behind) ↔
      Q [] ⟨name, below path name⟩ (trail (below path name) rest) ∨
        ∃ before place behind, trail (below path name) rest = before ++ place :: behind ∧
          Q (⟨name, below path name⟩ :: before) place behind := by
  simp only [trail_cons, List.cons_eq_append_iff]
  grind

/-- A way goes on from where its first part comes to. -/
theorem trail_append_cons (path : Text) (above : List Text) (key : Text) (rest : List Text) :
    trail path (above ++ key :: rest) =
      trail path above ++
        ⟨key, pathAlong path (above ++ [key])⟩ :: trail (pathAlong path (above ++ [key])) rest := by
  induction above generalizing path with
  | nil => rfl
  | cons name above ih => simp [ih]

/-- The last name on a way is the last of the path. -/
theorem pathAlong_concat (path : Text) (above : List Text) (key : Text) :
    pathAlong path (above ++ [key]) = below (pathAlong path above) key :=
  List.foldl_concat below path key above

/-- Where no name is empty, a way comes to the path of its names. -/
theorem pathAlong_eq_dotted {names : List Text} (h : ∀ name ∈ names, name ≠ []) :
    pathAlong [] names = dotted names := by
  induction names using List.reverseRecOn with
  | nil => rfl
  | append_singleton above key ih =>
      have habove : ∀ name ∈ above, name ≠ [] := fun name hname =>
        h name (List.mem_append_left _ hname)
      rw [pathAlong_concat, ih habove, below_dotted habove]

namespace Preparation

/-! ## the way to a value -/

variable {p : Preparation} {path key : Text} {names rest : List Text} {ms : Members}
  {u v w : Value}

/-- The walk comes to a place behind others: it takes none of them as it is, is not
turned back, and goes on into the object at each of them. -/
structure ComesTo (p : Preparation) (before : List Place) (place : Place) : Prop where
  unlisted : ∀ other ∈ before, ¬ other.Listed p.excluded ∧ ¬ other.Listed p.always
  entered : ∀ other ∈ before, p.reaches other.path = true
  admitted : ¬ place.Listed p.excluded

/-- A place at the start is come to unless it never goes. -/
theorem comesTo_nil_iff {place : Place} : p.ComesTo [] place ↔ ¬ place.Listed p.excluded :=
  ⟨fun h => h.admitted, fun h => ⟨by simp, by simp, h⟩⟩

/-- A place further on is come to through one that is not listed and is gone into. -/
theorem comesTo_cons_iff {before : List Place} {first place : Place} :
    p.ComesTo (first :: before) place ↔
      ¬ first.Listed p.excluded ∧ ¬ first.Listed p.always ∧ p.reaches first.path = true ∧
        p.ComesTo before place := by
  constructor
  · rintro ⟨hunlisted, hentered, hadmitted⟩
    rw [List.forall_mem_cons] at hunlisted hentered
    exact ⟨hunlisted.1.1, hunlisted.1.2, hentered.1, hunlisted.2, hentered.2, hadmitted⟩
  · rintro ⟨hexcluded, halways, hentered, hunlisted, hothers, hadmitted⟩
    exact ⟨List.forall_mem_cons.2 ⟨⟨hexcluded, halways⟩, hunlisted⟩,
      List.forall_mem_cons.2 ⟨hentered, hothers⟩, hadmitted⟩

/-- Of a value behind names below a path goes another one: the value itself if the
walk comes to an entry on the way that always goes, and else what goes of the value
when the walk comes to it. -/
def Yields (p : Preparation) (path : Text) (names : List Text) (v w : Value) : Prop :=
  ∃ before place behind, trail path names = before ++ place :: behind ∧
    p.ComesTo before place ∧
      ((place.Listed p.always ∧ w = v) ∨
        (¬ place.Listed p.always ∧ behind = [] ∧ p.value place.path v = some w))

/-- An entry never goes exactly if it is listed so. -/
theorem excludes_iff : p.excludes key path = true ↔ Place.Listed ⟨key, path⟩ p.excluded := by
  simp [excludes, Place.Listed]

/-- An entry always goes exactly if it is listed so. -/
theorem includes_iff : p.includes key path = true ↔ Place.Listed ⟨key, path⟩ p.always := by
  simp [includes, Place.Listed]

/-- Along no names nothing goes. -/
theorem not_yields_nil : ¬ p.Yields path [] v w := by
  rintro ⟨before, place, behind, htrail, _⟩
  simp at htrail

/-- A value that is no object goes as it is. -/
theorem Yields.eq_of_not_obj (h : p.Yields path names v w) (hv : ∀ ms, v ≠ .obj ms) : w = v := by
  obtain ⟨_, _, _, _, _, ⟨_, rfl⟩ | ⟨_, _, hvalue⟩⟩ := h
  · rfl
  · exact eq_of_value_eq_some hv hvalue

/-- One step of the way. -/
theorem yields_cons :
    p.Yields path (key :: rest) v w ↔
      ¬ Place.Listed ⟨key, below path key⟩ p.excluded ∧
        ((Place.Listed ⟨key, below path key⟩ p.always ∧ w = v) ∨
          (¬ Place.Listed ⟨key, below path key⟩ p.always ∧
            ((rest = [] ∧ p.value (below path key) v = some w) ∨
              (p.reaches (below path key) = true ∧ p.Yields (below path key) rest v w)))) := by
  rw [Yields, exists_trail_cons, Yields]
  simp only [comesTo_nil_iff, comesTo_cons_iff, trail_eq_nil_iff]
  grind

/-! ## what is found behind names -/

/-- Behind names in what goes of a value is what is behind them in what goes of the
members of an object. -/
theorem follow?_value_iff (hsome : names ≠ []) :
    (p.value path u).bind (fun w => w.follow? names) = some w ↔
      ∃ inner, u = .obj inner ∧ p.reaches path = true ∧
        (Value.obj (p.members path inner)).follow? names = some w := by
  obtain ⟨name, rest, rfl⟩ := List.exists_cons_of_ne_nil hsome
  have hempty : (Value.obj []).follow? (name :: rest) = none := rfl
  rw [Option.bind_eq_some_iff]
  rcases u.obj_or_not with ⟨inner, rfl⟩ | hobj
  · simp only [value_obj_eq_some, Value.obj.injEq]
    grind
  · constructor
    · rintro ⟨u', hgoes, hfollow⟩
      rw [eq_of_value_eq_some hobj hgoes, Value.follow?_of_not_obj hobj hsome] at hfollow
      cases hfollow
    · rintro ⟨inner, rfl, _⟩
      exact absurd rfl (hobj inner)

/-- **What arrives**: where each name stands once, what is found behind names in
what goes is what goes of the value behind those names. -/
theorem follow?_members_iff (hms : Throughout (fun ms => (Assoc.keys ms).Nodup) ms)
    (hsome : names ≠ []) :
    (Value.obj (p.members path ms)).follow? names = some w ↔
      ∃ v, (Value.obj ms).follow? names = some v ∧ p.Yields path names v w := by
  induction hms generalizing path names with
  | @intro ms distinct inside ih =>
      obtain ⟨key, rest, rfl⟩ := List.exists_cons_of_ne_nil hsome
      have hmember : (Value.obj ms).member? key = ms.lookup key := rfl
      have hkept : (Value.obj (p.members path ms)).member? key =
          (ms.lookup key).bind (p.entry path key) := by
        rw [Value.member?, p.lookup_members distinct]
      rw [Value.follow?_cons, Value.follow?_cons, hkept, hmember]
      cases hu : ms.lookup key with
      | none => simp
      | some u =>
          simp only [Option.bind_some, yields_cons, entry, excludes_iff, includes_iff]
          by_cases hexcluded : Place.Listed ⟨key, below path key⟩ p.excluded
          · simp [hexcluded]
          by_cases halways : Place.Listed ⟨key, below path key⟩ p.always
          · simp [hexcluded, halways]
          simp only [hexcluded, halways, if_false, not_false_eq_true, true_and, false_and, false_or]
          by_cases hrest : rest = []
          · simp [hrest, Value.follow?, not_yields_nil]
          · rw [follow?_value_iff hrest]
            simp only [hrest, false_and, false_or]
            rcases u.obj_or_not with ⟨inner, rfl⟩ | hobj
            · have hinner : (Value.obj (p.members (below path key) inner)).follow? rest = some w ↔
                  ∃ v, (Value.obj inner).follow? rest = some v ∧
                    p.Yields (below path key) rest v w :=
                ih key inner (Assoc.mem_of_lookup hu) hrest
              simp only [Value.obj.injEq, exists_eq_left', hinner]
              grind
            · simp [hobj, Value.follow?_of_not_obj hobj hrest]

/-- So it is with the input of a value in which each name stands once. -/
theorem follow?_run_iff {values : Members} (hvalues : (Value.obj values).Distinct)
    (hsome : names ≠ []) :
    (Value.obj (p.run values)).follow? names = some w ↔
      ∃ v, (Value.obj values).follow? names = some v ∧ p.Yields [] names v w :=
  follow?_members_iff hvalues.throughout hsome

end Preparation

end GraphDoc
