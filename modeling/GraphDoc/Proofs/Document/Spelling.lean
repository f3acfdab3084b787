import GraphDoc.Proofs.Document.Lexeme
import GraphDoc.Proofs.Document.Names

/-!
# GraphDoc.Proofs.Document.Spelling

The words and signs that a document is written with, apart from its layout.

The printer breaks the lines of long arguments and indents selections, but a
document of names is always printed with the lexemes of its spelling
(`Document.lexemes_text`).
-/

namespace GraphDoc

open Name

/-! ## spellings -/

/-- Lexemes between round brackets; no brackets around nothing. -/
def inRound (inner : List Lexeme) : List Lexeme :=
  if inner.isEmpty then [] else .sign '(' :: (inner ++ [.sign ')'])

def inCurly (inner : List Lexeme) : List Lexeme := .sign '\x7b' :: (inner ++ [.sign '\x7d'])

def ArgumentValue.spelling : ArgumentValue → List Lexeme
  | var name => [.sign '$', .word name]
  | int n => [.word (Text.ofNat n)]

def Argument.spelling (a : Argument) : List Lexeme :=
  .word a.name :: .sign ':' :: a.value.spelling

/-- The spelling of a field before what is selected below it. -/
def headSpelling (name : Text) (arguments : List Argument) : List Lexeme :=
  .word name :: inRound (arguments.flatMap Argument.spelling)

mutual
/-- The spelling of a field and the fields below it. -/
def Node.spelling : Node → List Lexeme
  | .leaf name arguments => headSpelling name arguments
  | .branch name arguments children =>
    headSpelling name arguments ++ inCurly (Node.spellings children)

def Node.spellings : List Node → List Lexeme
  | [] => []
  | n :: rest => n.spelling ++ Node.spellings rest
end

def TypeRef.spelling : TypeRef → List Lexeme
  | named name => [.word name]
  | list item => .sign '[' :: (item.spelling ++ [.sign ']'])
  | nonNull inner => inner.spelling ++ [.sign '!']

def VariableDefinition.spelling (d : VariableDefinition) : List Lexeme :=
  [.sign '$', .word d.name, .sign ':'] ++ d.type.spelling

def Document.spelling (d : Document) : List Lexeme :=
  .word d.kind.text :: .word d.name ::
    (inRound (d.definitions.flatMap VariableDefinition.spelling) ++ inCurly d.root.spelling)

/-! ## the printer keeps to the spelling -/

/-- A valid name is one word. -/
theorem lexemes_name {t : Text} (h : valid t = true) : lexemes t = [.word t] := by
  refine lexemes_word (all_isPart_of_valid h) ?_
  rintro rfl
  cases h

/-- The digits of a number are one word. -/
theorem lexemes_ofNat (n : Nat) : lexemes (Text.ofNat n) = [.word (Text.ofNat n)] := by
  refine lexemes_word (List.all_eq_true.2 fun c hc => ?_) ?_
  · obtain ⟨d, hd, rfl⟩ := List.mem_map.1 hc
    have hdigit : d.isDigit = true := Nat.isDigit_of_mem_toDigits (by decide) (by decide) hd
    exact isPart_char.2 (Or.inr (by simp [Char.isAlphanum, hdigit]))
  · simp [Text.ofNat, Text.ofChars, Nat.toDigits_ne_nil]

/-- Round brackets, on the same line or on lines of their own. -/
theorem lexemes_wrapped_round {left t right : Text} {inner : List Lexeme} (hl : Wordless left)
    (hr : Wordless right) (hleft : lexemes left = [.sign '('])
    (hright : lexemes right = [.sign ')'])
    (h : lexemes t = inner) (hempty : inner = [] → t = []) :
    lexemes (wrapped left t right) = inRound inner := by
  rw [lexemes_wrapped hl hr, hleft, hright, inRound, h]
  by_cases hinner : inner = []
  · simp [hinner, hempty hinner]
  · have ht : t ≠ [] := by
      rintro rfl
      exact hinner h.symm
    simp [hinner, ht]

/-- The value of an argument is printed as it is spelt. -/
theorem ArgumentValue.lexemes_print {v : ArgumentValue} (h : AllValid v.names) :
    lexemes v.print = v.spelling := by
  cases v with
  | var name =>
      have hname : valid name = true := (allValid_cons.1 h).1
      have hsign : lexemes "$" = [.sign '$'] := rfl
      rw [ArgumentValue.print, lexemes_wordless_append (by decide), hsign, lexemes_name hname]
      rfl
  | int n => exact lexemes_ofNat n

/-- An argument is printed as it is spelt. -/
theorem Argument.lexemes_print {a : Argument} (h : AllValid a.names) :
    lexemes a.print = a.spelling := by
  obtain ⟨hname, hvalue⟩ := allValid_cons.1 h
  have hcolon : Wordless ": " := by decide
  have hsign : lexemes ": " = [.sign ':'] := rfl
  rw [Argument.print, List.append_assoc, lexemes_append (apart_append hcolon (by decide) _),
    lexemes_wordless_append hcolon, hsign, lexemes_name hname, ArgumentValue.lexemes_print hvalue]
  rfl

/-- Arguments are printed as they are spelt, whatever gap is between them. -/
theorem Argument.lexemes_joined_print {gap : Text} (hgap : IsGap gap) {arguments : List Argument}
    (h : AllValid (arguments.flatMap Argument.names)) :
    lexemes (joined gap (arguments.map Argument.print)) =
      arguments.flatMap Argument.spelling := by
  rw [lexemes_joined hgap, List.flatMap_map]
  exact List.flatMap_congr fun a ha => Argument.lexemes_print (allValid_flatMap.1 h a ha)

/-- The head of a field, in either layout. -/
theorem lexemes_fieldHead {name : Text} {arguments : List Argument} (hname : valid name = true)
    (h : AllValid (arguments.flatMap Argument.names)) :
    lexemes (fieldHead name arguments) = headSpelling name arguments := by
  have hnone : arguments.flatMap Argument.spelling = [] → arguments = [] := by
    cases arguments with
    | nil => exact fun _ => rfl
    | cons a rest => exact fun hempty => by cases hempty
  have hlines : lexemes (joined "\n" (arguments.map Argument.print)) =
      arguments.flatMap Argument.spelling := Argument.lexemes_joined_print (by decide) h
  simp only [fieldHead]
  split
  · rw [lexemes_append (apart_wrapped (by decide) (by decide) _ _), lexemes_name hname,
      lexemes_wrapped_round (by decide) (by decide) rfl rfl]
    · rfl
    · split
      · rename_i hempty
        rw [← hlines, List.isEmpty_iff.1 hempty]
      · rw [lexemes_indented, hlines]
    · intro hempty
      rw [hnone hempty]
      rfl
  · rw [lexemes_append (apart_wrapped (by decide) (by decide) _ _), lexemes_name hname,
      lexemes_wrapped_round (by decide) (by decide) rfl rfl
        (Argument.lexemes_joined_print (by decide) h)]
    · rfl
    · intro hempty
      rw [hnone hempty]
      rfl

mutual
/-- A field is printed with its spelling. -/
theorem Node.lexemes_print : (n : Node) → AllValid n.names → lexemes n.print = n.spelling
  | .leaf name arguments, h => by
      obtain ⟨hname, harguments⟩ := allValid_cons.1 h
      exact lexemes_fieldHead hname harguments
  | .branch name arguments children, h => by
      obtain ⟨hname, hrest⟩ := allValid_cons.1 h
      obtain ⟨harguments, hchildren⟩ := allValid_append.1 hrest
      rw [Node.print, lexemes_joined (by decide)]
      simp only [List.flatMap_cons, List.flatMap_nil, List.append_nil,
        lexemes_fieldHead hname harguments, lexemes_selectionSet,
        Node.flatMap_lexemes_printAll children hchildren]
      rfl

/-- Fields are printed with their spellings. -/
theorem Node.flatMap_lexemes_printAll : (nodes : List Node) → AllValid (Node.allNames nodes) →
    (Node.printAll nodes).flatMap lexemes = Node.spellings nodes
  | [], _ => rfl
  | n :: rest, h => by
      obtain ⟨hfirst, hrest⟩ := allValid_append.1 h
      rw [Node.printAll, List.flatMap_cons, Node.lexemes_print n hfirst,
        Node.flatMap_lexemes_printAll rest hrest, Node.spellings]
end

/-- A type is printed as it is spelt. -/
theorem TypeRef.lexemes_print {t : TypeRef} (h : valid t.name = true) :
    lexemes t.print = t.spelling := by
  induction t with
  | named name => exact lexemes_name h
  | list item ih =>
      have hopen : lexemes "[" = [.sign '['] := rfl
      have hclose : lexemes "]" = [.sign ']'] := rfl
      rw [TypeRef.print, lexemes_append (by decide), lexemes_wordless_append (by decide), ih h,
        hopen, hclose]
      rfl
  | nonNull inner ih =>
      have hmark : lexemes "!" = [.sign '!'] := rfl
      rw [TypeRef.print, lexemes_append (by decide), ih h, hmark]
      rfl

/-- The definition of a variable is printed as it is spelt. -/
theorem VariableDefinition.lexemes_print {d : VariableDefinition} (h : AllValid d.names) :
    lexemes d.print = d.spelling := by
  obtain ⟨hname, htype⟩ := allValid_cons.1 h
  have hcolon : Wordless ": " := by decide
  have hsign : lexemes "$" = [.sign '$'] := rfl
  have hmark : lexemes ": " = [.sign ':'] := rfl
  rw [VariableDefinition.print, List.append_assoc,
    lexemes_append (apart_append hcolon (by decide) _), lexemes_wordless_append hcolon,
    lexemes_wordless_append (by decide), hsign, hmark, lexemes_name hname,
    TypeRef.lexemes_print (allValid_cons.1 htype).1]
  rfl

/-- Definitions are printed as they are spelt, whatever gap is between them. -/
theorem VariableDefinition.lexemes_joined_print {gap : Text} (hgap : IsGap gap)
    {definitions : List VariableDefinition}
    (h : AllValid (definitions.flatMap VariableDefinition.names)) :
    lexemes (joined gap (definitions.map VariableDefinition.print)) =
      definitions.flatMap VariableDefinition.spelling := by
  rw [lexemes_joined hgap, List.flatMap_map]
  exact List.flatMap_congr fun d hd =>
    VariableDefinition.lexemes_print (allValid_flatMap.1 h d hd)

/-- The declared variables, in either layout. -/
theorem lexemes_definitionsText {definitions : List VariableDefinition}
    (h : AllValid (definitions.flatMap VariableDefinition.names)) :
    lexemes (definitionsText definitions) =
      inRound (definitions.flatMap VariableDefinition.spelling) := by
  have hnone : ∀ gap, definitions.flatMap VariableDefinition.spelling = [] →
      joined gap (definitions.map VariableDefinition.print) = [] := by
    intro gap hempty
    cases definitions with
    | nil => rfl
    | cons d rest => cases hempty
  simp only [definitionsText]
  split
  · exact lexemes_wrapped_round (by decide) (by decide) rfl rfl
      (VariableDefinition.lexemes_joined_print (by decide) h) (hnone _)
  · exact lexemes_wrapped_round (by decide) (by decide) rfl rfl
      (VariableDefinition.lexemes_joined_print (by decide) h) (hnone _)

/-- The definitions of a document stand apart from its name. -/
theorem apart_definitionsText (definitions : List VariableDefinition) :
    Apart (definitionsText definitions) := by
  simp only [definitionsText]
  split
  · exact apart_wrapped (by decide) (by decide) _ _
  · exact apart_wrapped (by decide) (by decide) _ _

/-- The kind of an operation is one word. -/
theorem OperationKind.lexemes_text (kind : OperationKind) :
    lexemes kind.text = [.word kind.text] := by
  cases kind <;> rfl

/-- The head of a document is its kind, its name and its variables. -/
theorem Document.lexemes_head {d : Document} (h : d.Named) :
    lexemes d.head = .word d.kind.text :: .word d.name ::
      inRound (d.definitions.flatMap VariableDefinition.spelling) := by
  obtain ⟨hname, hrest⟩ := allValid_cons.1 h
  rw [Document.head, joined_pair, lexemes_joined (by decide)]
  simp only [List.flatMap_cons, List.flatMap_nil, List.append_nil, d.kind.lexemes_text,
    lexemes_append (apart_definitionsText _), lexemes_name hname,
    lexemes_definitionsText (allValid_append.1 hrest).1]
  rfl

/-- **The printer keeps to the spelling**: the text of a document of names has
the lexemes of its spelling. -/
theorem Document.lexemes_text {d : Document} (h : d.Named) : lexemes d.text = d.spelling := by
  obtain ⟨_, hrest⟩ := allValid_cons.1 h
  -- the operation has a name, so it is never written without its head
  have hhead : d.head ≠ "query" := by
    intro hquery
    have hword : lexemes "query" = [.word "query"] := rfl
    have hlexemes := Document.lexemes_head h
    rw [hquery, hword] at hlexemes
    exact List.cons_ne_nil _ _ (List.cons.inj hlexemes).2.symm
  have hroot : lexemes (selectionSet [d.root.print]) = inCurly d.root.spelling := by
    rw [lexemes_selectionSet, List.flatMap_singleton,
      Node.lexemes_print d.root (allValid_append.1 hrest).2]
    rfl
  rw [Document.text, if_neg hhead, lexemes_around_gap (by decide), Document.lexemes_head h, hroot]
  rfl

end GraphDoc
