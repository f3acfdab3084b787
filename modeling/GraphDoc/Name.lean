import GraphDoc.Text.Basic

/-!
# GraphDoc.Name

The names of a request document: a letter or an underscore, followed by
letters, digits and underscores, all of them ASCII.

`valid` is that grammar on the whole text.  `accepted` is the check that names
from outside go through; it also lets one line feed at the very end pass.
-/

namespace GraphDoc.Name

/-- A code point that a name may start with. -/
def isStart (c : CodePoint) : Bool := c.satisfies fun c => c = '_' || c.isAlpha

/-- A code point that may follow in a name. -/
def isPart (c : CodePoint) : Bool := c.satisfies fun c => c = '_' || c.isAlphanum

/-- A name. -/
def valid : Text → Bool
  | [] => false
  | c :: rest => isStart c && rest.all isPart

/-- Text without the line feed at its end, if there is one. -/
def withoutFinalBreak (t : Text) : Text :=
  if t.getLast? = some (.char '\n') then t.dropLast else t

/-- The check of a name from outside. -/
def accepted (t : Text) : Bool := valid (withoutFinalBreak t)

/-! ## small facts -/

/-- A name may begin with nothing that it may not hold. -/
theorem isPart_of_isStart {c : CodePoint} (h : isStart c = true) : isPart c = true := by
  cases c with
  | surrogate offset => simp [isStart] at h
  | char c =>
    simp only [isStart, isPart, CodePoint.satisfies_char, Char.isAlphanum, Bool.or_eq_true] at *
    exact h.imp id Or.inl

/-- A name begins with one character and goes on with others. -/
theorem valid_iff {t : Text} :
    valid t = true ↔ ∃ c rest, t = c :: rest ∧ isStart c = true ∧ rest.all isPart = true := by
  constructor
  · intro h
    match t, h with
    | c :: rest, h => exact ⟨c, rest, rfl, by simpa only [valid, Bool.and_eq_true] using h⟩
  · rintro ⟨c, rest, rfl, hc, hr⟩
    simp [valid, hc, hr]

/-- No name holds a line break. -/
theorem not_valid_of_mem_break {t : Text} (h : .char '\n' ∈ t) : valid t = false := by
  cases t with
  | nil => rfl
  | cons c rest =>
    rcases List.mem_cons.1 h with rfl | h
    · simp [valid, isStart]
    · have : rest.all isPart = false := by
        rw [List.all_eq_false]
        exact ⟨.char '\n', h, by decide⟩
      simp [valid, this]

end GraphDoc.Name
