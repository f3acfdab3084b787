import GraphDoc.Text.Basic
import GraphDoc.Text.CaseTable

/-!
# GraphDoc.Text.Case

Upper and lower case of text.  An ASCII letter moves by a fixed distance; any
other character is looked up in the case tables, where its counterpart may be
several characters long (`ß` becomes `SS`).  A surrogate has no case.
-/

namespace GraphDoc.Text

/-- Whether a run covers a code point. -/
def CaseRun.covers (r : CaseRun) (code : Nat) : Bool :=
  r.first ≤ code && code ≤ r.last && (code - r.first) % r.stride == 0

/-- The counterpart of a code point by a pair of tables, itself where neither
has an entry. -/
def counterpart (runs : List CaseRun) (expansions : List (Nat × List Nat)) (code : Nat) :
    List Nat :=
  match expansions.lookup code with
  | some codes => codes
  | none =>
    match runs.find? (·.covers code) with
    | some r => [((code : Int) + r.shift).toNat]
    | none => [code]

def upperChar (c : Char) : List Char :=
  if c.toNat < 128 then [c.toUpper]
  else (counterpart upperRuns upperExpansions c.toNat).map Char.ofNat

def lowerChar (c : Char) : List Char :=
  if c.toNat < 128 then [c.toLower]
  else (counterpart lowerRuns lowerExpansions c.toNat).map Char.ofNat

def upperPoint : CodePoint → Text
  | .char c => ofChars (upperChar c)
  | .surrogate offset => [.surrogate offset]

def lowerPoint : CodePoint → Text
  | .char c => ofChars (lowerChar c)
  | .surrogate offset => [.surrogate offset]

def upper (t : Text) : Text := t.flatMap upperPoint

/-- Text in lower case, code point by code point. -/
def lower (t : Text) : Text := t.flatMap lowerPoint

end GraphDoc.Text
