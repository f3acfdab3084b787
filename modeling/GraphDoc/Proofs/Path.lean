import GraphDoc.Path
import Mathlib.Data.List.Infix

/-!
# GraphDoc.Proofs.Path

Dotted paths, as texts and as lists of names.

A path is `dotted` from names.  Names without dots are found again between the
dots (`segments_dotted`).  Names with dots are not; but the paths above a path
are the same whether they are told by its dots (`Ancestor`) or by how it begins
(`Extends`), as `ancestor_iff_extends` says.  Of two paths above a third one, one
is above the other (`Extends.linear`).
-/

namespace GraphDoc

/-! ## between the dots -/

/-- The path of names, each below the one before it. -/
def dotted (names : List Text) : Text := Text.separated "." names

/-- The segments of a path are what stands between its dots. -/
theorem segments_eq_splitOn (t : Text) : segments t = t.splitOn (CodePoint.char '.') := by
  unfold segments List.splitOn
  induction t with
  | nil => simp [Text.parts]
  | cons c rest ih =>
      rw [Text.parts, ih, List.splitOnP_cons_eq_if_modifyHead]
      by_cases hdot : c = .char '.'
      · simp [hdot]
      · have hsome := List.splitOnP_ne_nil (fun x => x == CodePoint.char '.') rest
        obtain ⟨part, others, hparts⟩ := List.exists_cons_of_ne_nil hsome
        simp [hdot, hparts]

/-- Every path has a segment. -/
theorem segments_ne_nil (t : Text) : segments t ≠ [] := by
  rw [segments_eq_splitOn]
  exact List.splitOn_ne_nil _ _

/-- Names without dots stand between the dots of their path. -/
theorem segments_dotted {names : List Text} (h : ∀ name ∈ names, .char '.' ∉ name)
    (hsome : names ≠ []) : segments (dotted names) = names := by
  rw [segments_eq_splitOn]
  exact List.splitOn_intercalate _ h hsome

/-- A path is its segments joined again. -/
theorem dotted_segments (t : Text) : dotted (segments t) = t := by
  rw [segments_eq_splitOn]
  exact List.intercalate_splitOn _

/-- The segments of two paths joined by a dot are those of both. -/
theorem segments_append (path rest : Text) :
    segments (path ++ "." ++ rest) = segments path ++ segments rest := by
  have hdot : path ++ "." ++ rest = path ++ CodePoint.char '.' :: rest := by
    rw [List.append_assoc]
    rfl
  simp only [segments_eq_splitOn, hdot, List.splitOn]
  exact List.splitOnP_append_cons path rest (by simp)

@[simp] theorem dotted_nil : dotted [] = [] := rfl

@[simp] theorem dotted_singleton (name : Text) : dotted [name] = name := by
  rw [dotted, Text.separated, List.intercalate_singleton]

/-- The first name of a path stands before its first dot. -/
theorem dotted_cons (name : Text) {names : List Text} (h : names ≠ []) :
    dotted (name :: names) = name ++ "." ++ dotted names := by
  obtain ⟨next, rest, rfl⟩ := List.exists_cons_of_ne_nil h
  exact List.intercalate_cons_cons

/-- Two paths are joined by a dot. -/
theorem dotted_append {names more : List Text} (h : names ≠ []) (h' : more ≠ []) :
    dotted (names ++ more) = dotted names ++ "." ++ dotted more := by
  induction names with
  | nil => exact absurd rfl h
  | cons name rest ih =>
      by_cases hrest : rest = []
      · rw [hrest, List.singleton_append, dotted_cons name h', dotted_singleton]
      · have hmore : rest ++ more ≠ [] := List.append_ne_nil_of_left_ne_nil hrest more
        rw [List.cons_append, dotted_cons name hmore, dotted_cons name hrest, ih hrest]
        simp only [List.append_assoc]

/-- Names that are not empty make no empty path. -/
theorem dotted_ne_nil {names : List Text} (h : ∀ name ∈ names, name ≠ []) (hsome : names ≠ []) :
    dotted names ≠ [] := by
  obtain ⟨name, rest, rfl⟩ := List.exists_cons_of_ne_nil hsome
  rw [List.forall_mem_cons] at h
  by_cases hrest : rest = []
  · simp [hrest, h.1]
  · simp [dotted_cons name hrest, h.1]

/-- A name below a path is the last name of the path below. -/
theorem below_dotted {names : List Text} (h : ∀ name ∈ names, name ≠ []) (key : Text) :
    below (dotted names) key = dotted (names ++ [key]) := by
  by_cases hnames : names = []
  · rw [hnames, List.nil_append, dotted_singleton]
    rfl
  · have hpath : (dotted names).isEmpty = false := by
      simpa using dotted_ne_nil h hnames
    rw [below, hpath, dotted_append hnames (List.cons_ne_nil key []), dotted_singleton]
    rfl

/-! ## above and below -/

/-- A path that goes on behind another one after a dot. -/
def Extends (path other : Text) : Prop := ∃ rest, other = path ++ "." ++ rest

/-- A path above another one: its first names, at least one but not all. -/
def Ancestor (path other : Text) : Prop :=
  ∃ n, 0 < n ∧ n < (segments other).length ∧ path = dotted ((segments other).take n)

variable {path other third : Text}

/-- **Two ways to look upwards**: the paths that are told by the dots of a path
are those that it begins with before a dot. -/
theorem ancestor_iff_extends : Ancestor path other ↔ Extends path other := by
  constructor
  · intro h
    obtain ⟨n, hpos, hlt, hpath⟩ := h
    have htake : (segments other).take n ≠ [] := by
      simp only [ne_eq, List.take_eq_nil_iff, segments_ne_nil, or_false]
      omega
    have hdrop : (segments other).drop n ≠ [] := by
      simp only [ne_eq, List.drop_eq_nil_iff]
      omega
    refine ⟨dotted ((segments other).drop n), ?_⟩
    rw [hpath, ← dotted_append htake hdrop, List.take_append_drop, dotted_segments]
  · intro h
    obtain ⟨rest, hother⟩ := h
    have hpath := List.length_pos_iff.2 (segments_ne_nil path)
    have hrest := List.length_pos_iff.2 (segments_ne_nil rest)
    refine ⟨(segments path).length, hpath, ?_, ?_⟩
    · rw [hother, segments_append, List.length_append]
      omega
    · rw [hother, segments_append, List.take_left, dotted_segments]

/-- A path extends another one exactly if it goes on behind a dot. -/
theorem extends_iff_isPrefix : Extends path other ↔ (path ++ "." : Text) <+: other := by
  simp only [Extends, List.IsPrefix, eq_comm]

/-- A path covers itself and what extends it. -/
theorem covers_iff : covers path other = true ↔ path = other ∨ Extends path other := by
  rw [covers, Bool.or_eq_true, beq_iff_eq, List.isPrefixOf_iff_prefix, extends_iff_isPrefix]

/-- What extends an extension extends the path. -/
theorem Extends.trans (h : Extends path other) (h' : Extends other third) :
    Extends path third := by
  obtain ⟨rest, rfl⟩ := h
  obtain ⟨rest', rfl⟩ := h'
  exact ⟨rest ++ "." ++ rest', by simp only [List.append_assoc]⟩

/-- An extension is not empty. -/
theorem Extends.ne_nil (h : Extends path other) : other ≠ [] := by
  obtain ⟨rest, rfl⟩ := h
  have hdot : (("." : String) : Text) ≠ [] := by decide
  simp [hdot]

/-- A name below a path that is not the top is behind a dot. -/
theorem extends_below (hpath : path ≠ []) (key : Text) : Extends path (below path key) := by
  have hsome : path.isEmpty = false := by simpa using hpath
  exact ⟨key, by rw [below, hsome]; rfl⟩

/-- What a path with a dot at its end begins with, up to a dot, is the path or
above it. -/
theorem eq_or_extends_of_isPrefix (h : (path ++ "." : Text) <+: (other ++ "." : Text)) :
    path = other ∨ Extends path other := by
  have hdot : other ++ (("." : String) : Text) = other ++ [CodePoint.char '.'] := rfl
  rw [hdot, List.prefix_concat_iff] at h
  rcases h with h | h
  · exact .inl (List.append_cancel_right h)
  · exact .inr (extends_iff_isPrefix.2 h)

/-- Of two paths above a third one, one is above the other. -/
theorem Extends.linear (h : Extends path third) (h' : Extends other third) :
    path = other ∨ Extends path other ∨ Extends other path := by
  rw [extends_iff_isPrefix] at h h'
  rcases List.prefix_or_prefix_of_prefix h h' with hprefix | hprefix
  · have hpath := eq_or_extends_of_isPrefix hprefix
    exact hpath.imp id Or.inl
  · have hother := eq_or_extends_of_isPrefix hprefix
    exact hother.imp Eq.symm Or.inr

end GraphDoc
