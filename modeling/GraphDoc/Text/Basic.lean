/-!
# GraphDoc.Text.Basic

Text as a list of code points.

JSON can write one half of a surrogate pair without the other.  Such a half is
a code point but no character, so text that callers hand over need not be a
`String`; here a `Text` is a list of `CodePoint`s, each a character or a
surrogate on its own.  String literals and characters stand for the texts and
code points that they spell.

* `Text.ofString` and `Text.string?` lead from strings to texts and back.
* `CodePoint.code` orders code points, and so texts.
-/

namespace GraphDoc

/-! ## code points -/

/-- A code point: a character, or a surrogate on its own, counted from
`0xD800`. -/
inductive CodePoint where
  | char (c : Char)
  | surrogate (offset : Fin 0x800)
  deriving DecidableEq, Repr

instance : Coe Char CodePoint := ⟨.char⟩

instance : Inhabited CodePoint := ⟨.char 'A'⟩

namespace CodePoint

def code : CodePoint → Nat
  | char c => c.toNat
  | surrogate offset => 0xD800 + offset.val

def ofCode (n : Nat) : CodePoint :=
  if h : 0xD800 ≤ n ∧ n < 0xE000 then surrogate ⟨n - 0xD800, by omega⟩ else char (Char.ofNat n)

/-- Whether a code point is a character that has a property. -/
def satisfies (p : Char → Bool) : CodePoint → Bool
  | char c => p c
  | surrogate _ => false

def char? : CodePoint → Option Char
  | char c => some c
  | surrogate _ => none

instance : LT CodePoint := ⟨fun a b => a.code < b.code⟩

instance (a b : CodePoint) : Decidable (a < b) := inferInstanceAs (Decidable (a.code < b.code))

@[simp] theorem code_char (c : Char) : (char c).code = c.toNat := rfl

@[simp] theorem satisfies_char (p : Char → Bool) (c : Char) : (char c).satisfies p = p c := rfl

@[simp] theorem satisfies_surrogate (p : Char → Bool) (offset : Fin 0x800) :
    (surrogate offset).satisfies p = false := rfl

end CodePoint

/-! ## texts -/

abbrev Text := List CodePoint

namespace Text

def ofChars (cs : List Char) : Text := cs.map .char

def ofString (s : String) : Text := ofChars s.toList

instance : Coe String Text := ⟨ofString⟩

/-- The characters of a text, if it is made of characters only. -/
def chars? : Text → Option (List Char)
  | [] => some []
  | c :: rest => do
    let c ← c.char?
    let cs ← chars? rest
    return c :: cs

/-- The string of a text, if it is made of characters only. -/
def string? (t : Text) : Option String := t.chars?.map String.ofList

/-- A text as a string, with the replacement character for each surrogate. -/
def shown (t : Text) : String := String.ofList (t.map fun c => c.char?.getD '\uFFFD')

/-- Texts in a row with a separator between them. -/
def separated (separator : Text) (texts : List Text) : Text := separator.intercalate texts

/-- The parts of a text between the places of a code point. -/
def parts (separator : CodePoint) : Text → List Text
  | [] => [[]]
  | c :: rest =>
    if c = separator then [] :: parts separator rest
    else
      match parts separator rest with
      | part :: others => (c :: part) :: others
      | [] => [[c]]

def ofNat (n : Nat) : Text := ofChars (Nat.toDigits 10 n)

/-- An integer in decimal digits, behind a minus sign if it is negative. -/
def ofInt : Int → Text
  | .ofNat n => ofNat n
  | .negSucc n => .char '-' :: ofNat (n + 1)

/-! ## strings in texts -/

/-- A text made of characters is these characters. -/
theorem chars?_ofChars (cs : List Char) : chars? (ofChars cs) = some cs := by
  induction cs with
  | nil => rfl
  | cons c rest ih =>
    have h : chars? (ofChars (c :: rest)) = (chars? (ofChars rest)).map (c :: ·) := by
      cases hr : chars? (ofChars rest) <;> simp_all [ofChars, chars?, CodePoint.char?]
    rw [h, ih]
    rfl

/-- A text made of a string is that string. -/
theorem string?_ofString (s : String) : string? (ofString s) = some s := by
  simp [string?, ofString, chars?_ofChars]

/-- Different strings make different texts. -/
theorem ofString_injective {s t : String} (h : ofString s = ofString t) : s = t :=
  Option.some.inj (by rw [← string?_ofString s, h, string?_ofString t])

@[simp] theorem ofString_inj {s t : String} : ofString s = ofString t ↔ s = t :=
  ⟨ofString_injective, congrArg ofString⟩

@[simp] theorem ofString_beq (s t : String) : (ofString s == ofString t) = (s == t) := by
  rw [Bool.eq_iff_iff, beq_iff_eq, beq_iff_eq, ofString_inj]

end Text

end GraphDoc
