import GraphDoc.Name
import GraphDoc.Value.Shape

/-!
# GraphDoc.Schema.Field

The columns of a table.  `Field.make` is the way from outside: it checks the
names of the column and of its type.
-/

namespace GraphDoc

/-- Checks a name from outside; `kind` says in a message what it names. -/
def checkName (kind : Text) (given : Value) : Except Error Text :=
  match given with
  | .str s => if Name.accepted s then .ok s else .error (.invalidName kind given)
  | _ => .error (.invalidName kind given)

/-- A column: its name, its type on the wire, and whether it must be requested
with a selection of its parts. -/
structure Field where
  name : Text
  wireType : Text
  isArray : Bool := false
  nullable : Bool := true
  composite : Bool := false
  deriving DecidableEq, Repr

/-- A column with checked names. -/
def Field.make (name wireType : Value) (isArray nullable composite : Bool) :
    Except Error Field := do
  let name ← checkName "field" name
  let wireType ← checkName "type" wireType
  return { name, wireType, isArray, nullable, composite }

/-- The names of a column have passed the check. -/
def Field.Checked (f : Field) : Prop :=
  Name.accepted f.name = true ∧ Name.accepted f.wireType = true

instance (f : Field) : Decidable f.Checked :=
  inferInstanceAs (Decidable (Name.accepted f.name = true ∧ Name.accepted f.wireType = true))

/-- Only a text is a name, and only if it is spelt like one. -/
theorem checkName_eq_ok_iff {kind : Text} {given : Value} {s : Text} :
    checkName kind given = .ok s ↔ given = .str s ∧ Name.accepted s = true := by
  cases given with
  | str t =>
    by_cases h : Name.accepted t = true
    · simp only [checkName, h, if_true, Except.ok.injEq, Value.str.injEq]
      exact ⟨fun e => ⟨e, e ▸ h⟩, And.left⟩
    · simp only [checkName, h, Value.str.injEq]
      constructor
      · intro e
        cases e
      · rintro ⟨rfl, h'⟩
        exact absurd h' h
  | _ => simp [checkName]

/-- A field that could be made is checked. -/
theorem Field.checked_of_make {name wireType : Value} {a n e : Bool} {f : Field}
    (h : Field.make name wireType a n e = .ok f) : f.Checked := by
  unfold Field.make at h
  cases hn : checkName "field" name with
  | error x => simp [hn, bind, Except.bind] at h
  | ok s =>
    cases ht : checkName "type" wireType with
    | error x => simp [hn, ht, bind, Except.bind] at h
    | ok t =>
      simp only [hn, ht, bind, Except.bind, pure, Except.pure, Except.ok.injEq] at h
      subst h
      exact ⟨(checkName_eq_ok_iff.1 hn).2, (checkName_eq_ok_iff.1 ht).2⟩

end GraphDoc
