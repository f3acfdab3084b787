import GraphDoc.Value.Literal

/-!
# GraphDoc.Value.Key

The names that callers look things up by.  A name is a text as a rule, but a
list of names may hold anything; what is no text stays a `stray` key, which
finds nothing and is shown as it was given.
-/

namespace GraphDoc

/-- A name as a caller gave it. -/
inductive Key where
  | name (t : Text)
  | stray (v : Value)
  deriving Inhabited, Repr

namespace Key

/-- A value used as a name. -/
def ofValue : Value → Key
  | .str t => name t
  | v => stray v

def value : Key → Value
  | name t => .str t
  | stray v => v

/-- The text of a key that is a name. -/
def name? : Key → Option Text
  | name t => some t
  | stray _ => none

/-- A key inside a sentence. -/
def text (k : Key) : Text := k.value.text

/-- Whether two keys find the same. -/
def same : Key → Key → Bool
  | name t, name u => t == u
  | stray v, stray w => v.same w
  | _, _ => false

instance : BEq Key := ⟨same⟩

instance : Coe Text Key := ⟨name⟩

@[simp] theorem name_beq_name (t u : Text) : (name t == name u) = (t == u) := rfl

@[simp] theorem name_beq_stray (t : Text) (v : Value) : (name t == stray v) = false := rfl

@[simp] theorem stray_beq_name (v : Value) (t : Text) : (stray v == name t) = false := rfl

/-- Whether a value can be looked up at all: containers cannot. -/
def possible : Value → Bool
  | .arr _ => false
  | .obj _ => false
  | _ => true

end Key

end GraphDoc
