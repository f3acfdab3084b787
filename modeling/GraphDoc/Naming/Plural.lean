import GraphDoc.Text.Case

/-!
# GraphDoc.Naming.Plural

English plurals by rules on the end of a word.

A few words have no plural form of their own.  Any other word goes through
`rules` in order, irregular words first, and the first rule whose pattern ends
the word decides: it keeps the part that it names, drops the rest and adds its
ending.  A word that no rule fits takes an `s`.

A line feed at the very end stands outside the word; the general rule then
adds its `s` on both sides of it.
-/

namespace GraphDoc.Naming

/-! ## letters -/

/-- The characters that count as a letter when case does not matter: both
cases, and the few foreign letters that have it as their counterpart. -/
def letterForms (c : Char) : List Char :=
  match c with
  | 'i' => ['i', 'I', 'İ', 'ı']
  | 'k' => ['k', 'K', '\u212A']
  | 's' => ['s', 'S', 'ſ']
  | c => [c, c.toUpper]

/-- What a pattern asks of one code point. -/
inductive Letter where
  | one (c : Char)
  | eitherCase (c : Char)
  | exactly (c : Char)
  | among (cs : List Char)
  | outside (cs : List Char)

/-- Whether a code point fits. -/
def Letter.fits : Letter → CodePoint → Bool
  | one c, x => x.satisfies (letterForms c).contains
  | eitherCase c, x => x == c || x == c.toUpper
  | exactly c, x => x == c
  | among cs, x => x.satisfies (cs.flatMap letterForms).contains
  | outside cs, x => !x.satisfies (cs.flatMap letterForms).contains

/-- Alternatives of a pattern, each a word of letters. -/
abbrev Pattern := List (List Letter)

/-- The pattern of some words, in either case. -/
def words (ws : List String) : Pattern := ws.map fun w => w.toList.map .one

/-- Whether a text fits a word of a pattern letter by letter. -/
def fitsAll : List Letter → Text → Bool
  | [], [] => true
  | l :: ls, c :: cs => l.fits c && fitsAll ls cs
  | _, _ => false

/-! ## rules -/

/-- A rule: where the word ends in `kept` followed by `dropped`, `dropped`
gives way to `added`.  With `whole` nothing may stand before. -/
structure Rule where
  kept : Pattern
  dropped : Pattern
  added : Text
  whole : Bool := false

/-- Splits a text before the end that fits a pattern. -/
def splitEnd? (p : Pattern) (t : Text) : Option Text :=
  p.findSome? fun w =>
    let size := t.length - w.length
    if w.length ≤ t.length && fitsAll w (t.drop size) then some (t.take size) else none

/-- The word after a rule, if the rule fits. -/
def Rule.inflect? (r : Rule) (t : Text) : Option Text :=
  r.dropped.findSome? fun w =>
    match splitEnd? [w] t with
    | none => none
    | some stem =>
      match splitEnd? r.kept stem with
      | none => none
      | some before => if r.whole && !before.isEmpty then none else some (stem ++ r.added)

/-- No letters: what a rule drops that only adds. -/
def nothing : Pattern := [[]]

/-- An irregular word whose plural starts with the same letter; the plural
itself stays. -/
def irregular (first rest plural : String) : List Rule := [
  { kept := words [first], dropped := words [rest], added := plural },
  { kept := words [first], dropped := words [plural], added := plural }]

/-- The words whose plural starts with another letter: the first letter shows
which case the plural takes. -/
def cowRules : List Rule :=
  let rest (w : String) := w.toList.map Letter.eitherCase
  [ { kept := nothing, dropped := [.exactly 'C' :: rest "ow"], added := "Kine" },
    { kept := nothing, dropped := [.exactly 'c' :: rest "ow"], added := "kine" },
    { kept := nothing, dropped := [.exactly 'K' :: rest "ine"], added := "Kine" },
    { kept := nothing, dropped := [.exactly 'k' :: rest "ine"], added := "kine" }]

def irregularRules : List Rule :=
  irregular "z" "ombie" "ombies" ++ cowRules ++ irregular "m" "ove" "oves" ++
  irregular "s" "ex" "exes" ++ irregular "c" "hild" "hildren" ++ irregular "h" "uman" "umans" ++
  irregular "m" "an" "en" ++ irregular "p" "erson" "eople"

/-- The regular endings. -/
def regularRules : List Rule := [
  { kept := words ["quiz"], dropped := nothing, added := "zes" },
  { kept := words ["oxen"], dropped := nothing, added := "", whole := true },
  { kept := words ["ox"], dropped := nothing, added := "en", whole := true },
  { kept := words ["m", "l"], dropped := words ["ice"], added := "ice" },
  { kept := words ["m", "l"], dropped := words ["ouse"], added := "ice" },
  { kept := words ["passer"], dropped := words ["sby", "by"], added := "sby" },
  { kept := words ["matr", "vert", "ind"], dropped := words ["ix", "ex"], added := "ices" },
  { kept := words ["x", "ch", "ss", "sh"], dropped := nothing, added := "es" },
  { kept := [.outside "aeiouy".toList] :: words ["qu"], dropped := words ["y"], added := "ies" },
  { kept := words ["hive"], dropped := nothing, added := "s" },
  { kept := [[.among "lr".toList]], dropped := words ["f"], added := "ves" },
  { kept := [[.outside ['f']]], dropped := words ["fe"], added := "ves" },
  { kept := nothing, dropped := words ["sis"], added := "ses" },
  { kept := [[.among "ti".toList]], dropped := words ["a"], added := "a" },
  { kept := [[.among "ti".toList]], dropped := words ["um"], added := "a" },
  { kept := words ["buffal", "potat", "tomat"], dropped := words ["o"], added := "oes" },
  { kept := words ["bu"], dropped := words ["s"], added := "ses" },
  { kept := words ["alias", "status"], dropped := nothing, added := "es" },
  { kept := words ["octop", "vir"], dropped := words ["i"], added := "i" },
  { kept := words ["octop", "vir"], dropped := words ["us"], added := "i" },
  { kept := words ["ax", "test"], dropped := words ["is"], added := "es", whole := true },
  { kept := nothing, dropped := words ["s"], added := "s" }]

def rules : List Rule := irregularRules ++ regularRules

/-! ## plurals -/

/-- The words that are their own plural. -/
def unchanging : List Text :=
  ["equipment", "fish", "information", "jeans", "money", "rice", "series", "sheep", "species"]

/-- The plural of a word without a line feed at its end. -/
def pluralWord (t : Text) : Text :=
  match rules.findSome? (·.inflect? t) with
  | some plural => plural
  | none => t ++ "s"

def pluralize (t : Text) : Text :=
  if t.isEmpty || unchanging.contains (Text.lower t) then t
  else if t.getLast? = some (.char '\n') then
    match rules.findSome? (·.inflect? t.dropLast) with
    | some plural => plural ++ "\n"
    | none => t.dropLast ++ "s\ns"
  else pluralWord t

end GraphDoc.Naming
