import GraphDoc.Document.Printer
import GraphDoc.Name

/-!
# GraphDoc.Proofs.Document.Lexeme

The words and signs of a text.

`lexemes` cuts a text into words, which are the longest runs of characters of
names, and signs; blanks, line feeds and commas only keep them apart.  So the
layout of a text does not count: indentation (`lexemes_indented`), separators
(`lexemes_joined`) and brackets with or without line breaks (`lexemes_wrapped`)
leave the same lexemes.
-/

namespace GraphDoc

open Name

/-! ## cutting a text -/

/-- A word or a sign of a text. -/
inductive Lexeme where
  | word (t : Text)
  | sign (c : CodePoint)
  deriving DecidableEq, Repr

/-- A code point that only keeps lexemes apart. -/
def isGap (c : CodePoint) : Bool := c.satisfies fun c => c = ' ' || c = '\n' || c = ','

/-- The lexeme of a word; none for the empty text. -/
def wordLexeme (word : Text) : List Lexeme := if word.isEmpty then [] else [.word word]

/-- The lexeme of a code point that belongs to no word. -/
def signLexeme (c : CodePoint) : List Lexeme := if isGap c then [] else [.sign c]

/-- The lexemes of a text that goes on behind the beginning of a word. -/
def lexemesFrom (word : Text) : Text → List Lexeme
  | [] => wordLexeme word
  | c :: rest =>
    if isPart c then lexemesFrom (word ++ [c]) rest
    else wordLexeme word ++ signLexeme c ++ lexemesFrom [] rest

/-- The lexemes of a text. -/
def lexemes (t : Text) : List Lexeme := lexemesFrom [] t

@[simp] theorem lexemes_nil : lexemes [] = [] := rfl

/-! ## words -/

/-- Characters that a name may hold go on with the word. -/
theorem lexemesFrom_word {word s t : Text} (h : s.all isPart = true) :
    lexemesFrom word (s ++ t) = lexemesFrom (word ++ s) t := by
  induction s generalizing word with
  | nil => rw [List.nil_append, List.append_nil]
  | cons c rest ih =>
      rw [List.all_cons, Bool.and_eq_true] at h
      rw [List.cons_append, lexemesFrom, if_pos h.1, ih h.2, List.append_assoc,
        List.singleton_append]

/-- Characters that a name may hold are one word. -/
theorem lexemes_word {s : Text} (h : s.all isPart = true) (hne : s ≠ []) :
    lexemes s = [.word s] := by
  have hword : lexemesFrom [] (s ++ []) = lexemesFrom ([] ++ s) [] := lexemesFrom_word h
  rw [List.append_nil, List.nil_append] at hword
  simp [lexemes, hword, lexemesFrom, wordLexeme, hne]

/-! ## where a text can be cut -/

/-- Text that does not go on with a word. -/
def Apart (t : Text) : Prop := ∀ c ∈ t.head?, isPart c = false

instance (t : Text) : Decidable (Apart t) :=
  inferInstanceAs (Decidable (∀ c ∈ t.head?, isPart c = false))

/-- Text with no word in it. -/
def Wordless (t : Text) : Prop := ∀ c ∈ t, isPart c = false

instance (t : Text) : Decidable (Wordless t) :=
  inferInstanceAs (Decidable (∀ c ∈ t, isPart c = false))

/-- A text that does not begin like a name stands apart. -/
theorem Wordless.apart {t : Text} (h : Wordless t) : Apart t :=
  fun c hc => h c (List.mem_of_mem_head? hc)

/-- A text stands apart if its first part does. -/
theorem apart_append {s : Text} (h : Wordless s) (hne : s ≠ []) (t : Text) : Apart (s ++ t) := by
  cases s with
  | nil => exact absurd rfl hne
  | cons c rest =>
      intro d hd
      obtain rfl : c = d := by simpa using hd
      exact h c List.mem_cons_self

/-- A word ends where a text does not go on with it. -/
theorem lexemesFrom_apart {word t : Text} (h : Apart t) :
    lexemesFrom word t = wordLexeme word ++ lexemes t := by
  cases t with
  | nil => simp [lexemesFrom]
  | cons c rest =>
      have hc : isPart c = false := h c rfl
      simp [lexemes, lexemesFrom, hc, wordLexeme]

/-- A text can be cut where no word goes on. -/
theorem lexemesFrom_append {word s t : Text} (h : Apart t) :
    lexemesFrom word (s ++ t) = lexemesFrom word s ++ lexemes t := by
  induction s generalizing word with
  | nil => exact lexemesFrom_apart h
  | cons c rest ih =>
      rw [List.cons_append, lexemesFrom, lexemesFrom]
      by_cases hc : isPart c = true
      · rw [if_pos hc, if_pos hc, ih]
      · rw [if_neg hc, if_neg hc, ih, List.append_assoc _ _ (lexemes t)]

/-- The lexemes of a text and of one that stands apart follow each other. -/
theorem lexemes_append {s t : Text} (h : Apart t) : lexemes (s ++ t) = lexemes s ++ lexemes t :=
  lexemesFrom_append h

/-- A character that no name holds is a lexeme of its own, or none. -/
theorem lexemes_cons {c : CodePoint} (h : isPart c = false) (t : Text) :
    lexemes (c :: t) = signLexeme c ++ lexemes t := by
  simp [lexemes, lexemesFrom, h, wordLexeme]

/-- A text can be cut behind signs. -/
theorem lexemes_wordless_append {s : Text} (h : Wordless s) (t : Text) :
    lexemes (s ++ t) = lexemes s ++ lexemes t := by
  induction s with
  | nil => rfl
  | cons c rest ih =>
      obtain ⟨hc, hrest⟩ := List.forall_mem_cons.1 h
      rw [List.cons_append, lexemes_cons hc, lexemes_cons hc, ih hrest, List.append_assoc]

/-! ## gaps -/

/-- Text that keeps lexemes apart and has none of its own. -/
def IsGap (t : Text) : Prop := t ≠ [] ∧ ∀ c ∈ t, isGap c = true

instance (t : Text) : Decidable (IsGap t) :=
  inferInstanceAs (Decidable (t ≠ [] ∧ ∀ c ∈ t, isGap c = true))

/-- No name holds a gap. -/
theorem isPart_of_isGap {c : CodePoint} (h : isGap c = true) : isPart c = false := by
  cases c with
  | surrogate offset => rfl
  | char c =>
      have hc : (c = ' ' ∨ c = '\n') ∨ c = ',' := by simpa [isGap] using h
      rcases hc with (rfl | rfl) | rfl <;> decide

/-- A gap does not begin like a name. -/
theorem IsGap.wordless {t : Text} (h : IsGap t) : Wordless t :=
  fun c hc => isPart_of_isGap (h.2 c hc)

/-- Gaps have no lexemes. -/
theorem lexemes_of_forall_isGap {t : Text} (h : ∀ c ∈ t, isGap c = true) : lexemes t = [] := by
  induction t with
  | nil => rfl
  | cons c rest ih =>
      obtain ⟨hc, hrest⟩ := List.forall_mem_cons.1 h
      rw [lexemes_cons (isPart_of_isGap hc), signLexeme, if_pos hc, ih hrest, List.append_nil]

/-- A gap leaves the lexemes behind it alone. -/
theorem lexemes_gap_append {gap : Text} (h : IsGap gap) (t : Text) :
    lexemes (gap ++ t) = lexemes t := by
  rw [lexemes_wordless_append h.wordless, lexemes_of_forall_isGap h.2, List.nil_append]

/-- The lexemes before a gap and behind it follow each other. -/
theorem lexemes_around_gap {gap : Text} (h : IsGap gap) (s t : Text) :
    lexemes (s ++ gap ++ t) = lexemes s ++ lexemes t := by
  rw [List.append_assoc, lexemes_append (apart_append h.wordless h.1 t), lexemes_gap_append h]

/-! ## layout -/

/-- Texts with gaps between them have the lexemes of the texts. -/
theorem lexemes_separated {gap : Text} (h : IsGap gap) (texts : List Text) :
    lexemes (Text.separated gap texts) = texts.flatMap lexemes := by
  induction texts with
  | nil => rfl
  | cons t rest ih =>
      cases rest with
      | nil => simp [Text.separated]
      | cons u others =>
          rw [Text.separated, List.intercalate_cons_cons, lexemes_around_gap h,
            ← Text.separated, ih, List.flatMap_cons (x := t)]

/-- Empty texts have no lexemes. -/
theorem flatMap_lexemes_filter (texts : List Text) :
    (texts.filter fun t => !t.isEmpty).flatMap lexemes = texts.flatMap lexemes := by
  induction texts with
  | nil => rfl
  | cons t rest ih =>
      cases t with
      | nil => simpa using ih
      | cons c t => simp [ih]

/-- Texts in a row have the lexemes of each. -/
theorem lexemes_joined {gap : Text} (h : IsGap gap) (texts : List Text) :
    lexemes (joined gap texts) = texts.flatMap lexemes := by
  rw [joined, lexemes_separated h, flatMap_lexemes_filter]

/-- Two texts without a separator. -/
theorem joined_pair (s t : Text) : joined [] [s, t] = s ++ t := by
  cases s <;> cases t <;> simp [joined, Text.separated]

/-- Brackets stand around what they enclose, and around nothing not at all. -/
theorem lexemes_wrapped {left right : Text} (hl : Wordless left) (hr : Wordless right)
    (t : Text) : lexemes (wrapped left t right) =
      if t.isEmpty then [] else lexemes left ++ lexemes t ++ lexemes right := by
  unfold wrapped
  split
  · rfl
  · rw [lexemes_append hr.apart, lexemes_wordless_append hl]

/-- A text in brackets stands apart. -/
theorem apart_wrapped {left : Text} (hl : Wordless left) (hne : left ≠ []) (t right : Text) :
    Apart (wrapped left t right) := by
  unfold wrapped
  split
  · exact fun c hc => absurd hc (by simp)
  · rw [List.append_assoc]
    exact apart_append hl hne _

/-- Moving the lines of a text to the right changes no lexeme. -/
theorem lexemesFrom_indented (word t : Text) :
    lexemesFrom word (t.flatMap fun c : CodePoint => if c = '\n' then ("\n  " : Text) else [c]) =
      lexemesFrom word t := by
  induction t generalizing word with
  | nil => rfl
  | cons c rest ih =>
      rw [List.flatMap_cons]
      by_cases hc : c = '\n'
      · have hbreak : IsGap [c] := by rw [hc]; decide
        have hindent : IsGap "\n  " := by decide
        have hcons : c :: rest = [c] ++ rest := rfl
        rw [if_pos hc, hcons, lexemesFrom_apart (apart_append hindent.wordless hindent.1 _),
          lexemesFrom_apart (apart_append hbreak.wordless hbreak.1 rest),
          lexemes_gap_append hindent, lexemes_gap_append hbreak, lexemes, lexemes, ih]
      · rw [if_neg hc, List.singleton_append, lexemesFrom, lexemesFrom, ih, ih]

/-- Indentation leaves the lexemes alone. -/
theorem lexemes_indented (t : Text) : lexemes (indented t) = lexemes t := by
  rw [indented, lexemes_gap_append (by decide)]
  exact lexemesFrom_indented [] t

/-- A selection set stands around its fields. -/
theorem lexemes_selectionSet (fields : List Text) :
    lexemes (selectionSet fields) =
      .sign '\x7b' :: (fields.flatMap lexemes ++ [.sign '\x7d']) := by
  have hbody : lexemes (joined "\n" fields) = fields.flatMap lexemes :=
    lexemes_joined (by decide) fields
  have hopen : lexemes "\x7b\n" = [.sign '\x7b'] := rfl
  have hclose : lexemes "\n\x7d" = [.sign '\x7d'] := rfl
  simp only [selectionSet]
  split
  · rename_i hempty
    rw [List.isEmpty_iff.1 hempty] at hbody
    rw [← hbody]
    rfl
  · rw [lexemes_append (by decide), lexemes_wordless_append (by decide), lexemes_indented, hbody,
      hopen, hclose, List.singleton_append, List.cons_append]

end GraphDoc
