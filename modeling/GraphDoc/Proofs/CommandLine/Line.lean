import GraphDoc.CommandLine.Run
import GraphDoc.Proofs.Steps

/-!
# GraphDoc.Proofs.CommandLine.Line

Command lines that give every flag its value behind an equals sign.

A `Line` is made of values and flags, and possibly of values behind a separator;
`Line.arguments` are its arguments.
-/

namespace GraphDoc.CommandLine

/-! ## lines -/

/-- A part of a command line: a value that belongs to no flag, or a flag with
its value. -/
inductive Piece where
  | value (text : Text)
  | flag (flag : Flag) (text : Text)

namespace Piece

/-- The argument that a part is written as. -/
def argument : Piece → Text
  | value text => text
  | flag f text => f.text ++ "=" ++ text

/-- The word that is meant by it. -/
def word : Piece → Word
  | value text => .value text
  | flag f text => .flag f (some text)

/-- The value, of a part that is no flag. -/
def value? : Piece → Option Text
  | value text => some text
  | flag _ _ => none

/-- What a part gives a flag. -/
def given? (f : Flag) : Piece → Option Text
  | value _ => none
  | flag g text => if g = f then some text else none

end Piece

/-- A command line: some parts, and the values behind a separator if there is
one.  None of the parts is itself a separator. -/
structure Line where
  pieces : List Piece
  behind : Option (List Text) := none
  unmarked : ∀ text, .value text ∈ pieces → text ≠ separatorMark

namespace Line

/-- The arguments from the separator on. -/
def tail (l : Line) : List Text :=
  match l.behind with
  | none => []
  | some values => separatorMark :: values

def arguments (l : Line) : List Text := l.pieces.map Piece.argument ++ l.tail

/-- The values that belong to no flag, in order. -/
def values (l : Line) : List Text := l.pieces.filterMap Piece.value? ++ l.behind.getD []

/-- What a flag is given; of a flag that is given more than once the last value
counts. -/
def given (l : Line) (f : Flag) : Option Text := (l.pieces.filterMap (Piece.given? f)).getLast?

end Line

/-! ## words -/

/-- An argument with `=` is an option with its text. -/
theorem ofText_flag (f : Flag) (text : Text) :
    Word.ofText (f.text ++ "=" ++ text) = some (.flag f (some text)) := by
  cases f <;> rfl

/-- An argument that is no option is its own text. -/
theorem eq_of_ofText_value {arg text : Text} (h : Word.ofText arg = some (.value text)) :
    text = arg := by
  have hunknown : unknownWord arg = .value text → text = arg := by
    intro hword
    unfold unknownWord at hword
    split at hword
    · exact (Word.value.inj hword).symm
    · cases hword
  unfold Word.ofText at h
  split at h
  · unfold longWord at h
    dsimp only at h
    split at h
    · cases h
    · split at h
      · exact hunknown (Option.some.inj h)
      · cases h
      · cases h
  · cases h
  · exact hunknown (Option.some.inj h)
  · exact (Word.value.inj (Option.some.inj h)).symm

def Word.isValue : Word → Bool
  | .value _ => true
  | _ => false

/-- The words of some arguments, followed by those of the others. -/
theorem wordsOf_append {pieces : List Piece} {rest : List Text} {words : List Word}
    (hunmarked : ∀ text, .value text ∈ pieces → text ≠ separatorMark)
    (h : wordsOf (pieces.map Piece.argument ++ rest) = some words) :
    ∃ first others, words = first ++ others ∧ wordsOf rest = some others ∧
      List.Forall₂ (fun p w => Word.ofText p.argument = some w) pieces first := by
  induction pieces generalizing words with
  | nil => exact ⟨[], words, rfl, h, .nil⟩
  | cons p pieces ih =>
      have hmark : p.argument ≠ separatorMark := by
        cases p with
        | value text => exact hunmarked text List.mem_cons_self
        | flag f text => cases f <;> exact fun h => by cases h
      rw [List.map_cons, List.cons_append, wordsOf, if_neg hmark] at h
      obtain ⟨word, hword, h⟩ := Option.bind_eq_some_iff.1 h
      obtain ⟨words', hwords, h⟩ := Option.bind_eq_some_iff.1 h
      obtain ⟨first, others, rfl, hothers, hfirst⟩ :=
        ih (fun text ht => hunmarked text (List.mem_cons_of_mem _ ht)) hwords
      exact ⟨word :: first, others, (Option.some.inj h).symm, hothers, .cons hword hfirst⟩

/-- The words hold no more values than the parts, and as many only if each part
has the look that is meant. -/
theorem countP_words {pieces : List Piece} {words : List Word}
    (h : List.Forall₂ (fun p w => Word.ofText p.argument = some w) pieces words) :
    words.countP Word.isValue ≤ (pieces.filterMap Piece.value?).length ∧
      ((pieces.filterMap Piece.value?).length ≤ words.countP Word.isValue →
        words = pieces.map Piece.word) := by
  induction h with
  | nil => exact ⟨Nat.le_refl 0, fun _ => rfl⟩
  | @cons p w pieces words hw _ ih =>
      obtain ⟨hle, heq⟩ := ih
      cases p with
      | flag f text =>
          obtain rfl : Word.flag f (some text) = w :=
            Option.some.inj ((ofText_flag f text).symm.trans hw)
          have hskip : (Piece.flag f text :: pieces).filterMap Piece.value? =
              pieces.filterMap Piece.value? := rfl
          have hcount : (Word.flag f (some text) :: words).countP Word.isValue =
              words.countP Word.isValue := List.countP_cons_of_neg (by simp [Word.isValue])
          rw [hskip, hcount]
          exact ⟨hle, fun h => by rw [heq h]; rfl⟩
      | value text =>
          -- A value may look like a flag; then the words hold one value fewer.
          have hkeep : (Piece.value text :: pieces).filterMap Piece.value? =
              text :: pieces.filterMap Piece.value? := rfl
          rw [hkeep, List.length_cons]
          cases hvalue : w.isValue with
          | false =>
              rw [List.countP_cons_of_neg (by simp [hvalue])]
              exact ⟨by omega, fun h => absurd h (by omega)⟩
          | true =>
              rw [List.countP_cons_of_pos hvalue]
              refine ⟨by omega, fun h => ?_⟩
              rw [heq (by omega)]
              cases w with
              | value text' => rw [eq_of_ofText_value hw]; rfl
              | _ => cases hvalue

/-! ## what a flag is given -/

/-- The value that a flag gets from a text; the text `--` gives it the empty list,
and gives no metadata file. -/
def Flag.read (f : Flag) (text : Text) : Except Stop Value :=
  match f with
  | .help => .error .usage
  | .metadata => .ok (if text = separatorMark then .null else .str text)
  | .id => .ok (if text = separatorMark then .arr [] else .str text)
  | _ => if text = separatorMark then .ok (.arr []) else Parse.readJson text

/-- Whether the value of a flag is written in JSON. -/
def Flag.takesJson : Flag → Bool
  | .help => false
  | .metadata => false
  | .id => false
  | _ => true

/-- The text of an option that takes JSON is read as JSON, unless it is the mark that
ends the options. -/
theorem Flag.read_of_takesJson {f : Flag} (hf : f.takesJson = true) {text : Text}
    (hmark : text ≠ separatorMark) : f.read text = Parse.readJson text := by
  cases f <;> first | exact if_neg hmark | cases hf

namespace Parse

variable {p q : Parse}

/-- The value of a flag so far. -/
def flagged (p : Parse) : Flag → Value
  | .help => .null
  | .select => p.select
  | .options => p.options
  | .metadata => Value.ofOption (p.metadata.map .str)
  | .values => p.values
  | .id => p.rowId
  | .patch => p.patch

/-- What stands beside the flags is the same. -/
structure SameValues (p q : Parse) : Prop where
  operation : q.operation = p.operation
  table : q.table = p.table
  led : q.led = p.led
  extra : q.extra = p.extra

/-- An option leaves the values as they are. -/
theorem setFlag_sameValues {f : Flag} {text : Text} (h : p.setFlag f text = .ok q) :
    p.SameValues q := by
  cases f with
  | help => cases h
  | metadata => cases h; exact ⟨rfl, rfl, rfl, rfl⟩
  | id => cases h; exact ⟨rfl, rfl, rfl, rfl⟩
  | _ =>
      obtain ⟨v, _, h⟩ := bind_eq_ok.1 h
      cases pure_eq_ok.1 h
      exact ⟨rfl, rfl, rfl, rfl⟩

/-- A flag that carries its value gets what the text is read as, and nothing
else changes. -/
theorem setAttached_ok {f : Flag} {text : Text} (h : p.setAttached f text = .ok q) :
    p.SameValues q ∧ f.read text = .ok (q.flagged f) ∧ ∀ g ≠ f, q.flagged g = p.flagged g := by
  unfold setAttached at h
  by_cases hmark : text = separatorMark
  · rw [if_pos hmark] at h
    cases f with
    | help => cases h
    | _ =>
        cases h
        refine ⟨⟨rfl, rfl, rfl, rfl⟩, by simp [Flag.read, hmark, flagged, Value.ofOption], ?_⟩
        intro g hg
        cases g <;> first | rfl | exact absurd rfl hg
  · rw [if_neg hmark] at h
    refine ⟨setFlag_sameValues h, ?_⟩
    cases f with
    | help => cases h
    | metadata =>
        cases h
        refine ⟨by simp [Flag.read, hmark, flagged, Value.ofOption], fun g hg => ?_⟩
        cases g <;> first | rfl | exact absurd rfl hg
    | id =>
        cases h
        refine ⟨by simp [Flag.read, hmark, flagged], fun g hg => ?_⟩
        cases g <;> first | rfl | exact absurd rfl hg
    | _ =>
        obtain ⟨v, hv, h⟩ := bind_eq_ok.1 h
        cases pure_eq_ok.1 h
        refine ⟨by simpa [Flag.read, hmark, flagged] using hv, fun g hg => ?_⟩
        cases g <;> first | rfl | exact absurd rfl hg

/-! ## values -/

/-- What a value that belongs to no flag does: it is the operation, or the table,
or left over. -/
theorem setValue_cases {text : Text} (h : p.setValue text = .ok q) :
    (p.operation = none ∧ ∃ o, Operation.ofText? text = some o ∧
      q = { p with operation := some o, led := false, trailed := true }) ∨
    (p.operation.isSome = true ∧ p.table = none ∧
      q = { p with
        table := some
          (if text = separatorMark ∧ p.led = false then .stray (.arr []) else .name text)
        led := false, trailed := true }) ∨
    (p.operation.isSome = true ∧ p.table.isSome = true ∧ q = { p with extra := true }) := by
  unfold setValue at h
  dsimp only at h
  split at h
  · next hoperation =>
    split at h
    · next o ho => exact .inl ⟨hoperation, o, ho, (Except.ok.inj h).symm⟩
    · cases h
  · next o hoperation htable =>
    refine .inr (.inl ⟨by rw [hoperation]; rfl, htable, ?_⟩)
    rw [← Except.ok.inj h]
    simp
  · next o t hoperation htable =>
    exact .inr (.inr ⟨by rw [hoperation]; rfl, by rw [htable]; rfl, (Except.ok.inj h).symm⟩)

/-- A value leaves the options as they are. -/
theorem flagged_setValue {text : Text} (h : p.setValue text = .ok q) (f : Flag) :
    q.flagged f = p.flagged f := by
  rcases setValue_cases h with ⟨_, o, _, rfl⟩ | ⟨_, _, rfl⟩ | ⟨_, _, rfl⟩ <;> cases f <;> rfl

/-- How many of the operation and the table are still to come. -/
def missing (p : Parse) : Nat :=
  (if p.operation.isNone then 1 else 0) + (if p.table.isNone then 1 else 0)

/-- Where the values are the same, as many are missing. -/
theorem SameValues.missing_eq (h : p.SameValues q) : q.missing = p.missing := by
  rw [missing, missing, h.operation, h.table]

/-- A value makes up for at most one that is missing. -/
theorem missing_setValue {text : Text} (h : p.setValue text = .ok q) :
    p.missing ≤ q.missing + 1 := by
  rcases setValue_cases h with ⟨_, o, _, rfl⟩ | ⟨_, _, rfl⟩ | ⟨_, _, rfl⟩
  all_goals simp only [missing, Option.isNone_some]
  all_goals split <;> split <;> omega

/-- The mark that ends the options makes up for no value. -/
theorem missing_setSeparator (p : Parse) : p.setSeparator.missing = p.missing := by
  unfold setSeparator
  split
  · rfl
  · split <;> rfl

/-- Each of the operation and the table takes a word that is a value. -/
theorem missing_run {words : List Word} (h : p.run words = .ok q) :
    p.missing ≤ q.missing + words.countP Word.isValue := by
  fun_induction run p words with
  | case1 p =>
      cases h
      exact Nat.le_add_right _ _
  | case2 p text rest ih =>
      obtain ⟨p', hp', h⟩ := bind_eq_ok.1 h
      have hone := missing_setValue hp'
      have hrest := ih p' h
      rw [List.countP_cons_of_pos rfl]
      omega
  | case3 p rest ih =>
      have hrest := ih h
      rw [missing_setSeparator] at hrest
      rwa [List.countP_cons_of_neg (by simp [Word.isValue])]
  | case4 p rest ih =>
      rw [List.countP_cons_of_neg (by simp [Word.isValue])]
      exact ih h
  | case5 p f text rest ih =>
      obtain ⟨p', hp', h⟩ := bind_eq_ok.1 h
      have hsame := (setAttached_ok hp').1.missing_eq
      have hrest := ih p' h
      rw [List.countP_cons_of_neg (by simp [Word.isValue])]
      exact hsame ▸ hrest
  | case6 => cases h
  | case7 => cases h
  | case8 p f text rest _ ih =>
      -- A flag that carries no value takes the next one, so that one is lost too.
      obtain ⟨p', hp', h⟩ := bind_eq_ok.1 h
      have hsame := (setFlag_sameValues hp').missing_eq
      have hrest : p'.missing ≤ _ := ih p' h
      rw [List.countP_cons_of_neg (by simp [Word.isValue]), List.countP_cons_of_pos rfl]
      omega
  | case9 => cases h

/-! ## the parts of a line -/

/-- Takes a part of a line. -/
def take (p : Parse) : Piece → Except Stop Parse
  | .value text => p.setValue text
  | .flag f text => do
    let q ← p.setAttached f text
    return { q with trailed := false }

/-- The words of some parts are taken one after the other. -/
theorem run_pieces (p : Parse) (pieces : List Piece) (words : List Word) :
    p.run (pieces.map Piece.word ++ words) = pieces.foldlM take p >>= fun q => q.run words := by
  induction pieces generalizing p with
  | nil => rfl
  | cons piece pieces ih =>
      rw [List.foldlM_cons, bind_assoc]
      cases piece with
      | value text =>
          rw [List.map_cons, Piece.word, List.cons_append, run, take]
          exact congrArg _ (funext fun q => ih q)
      | flag f text =>
          rw [List.map_cons, Piece.word, List.cons_append, run, take, bind_assoc]
          exact congrArg _ (funext fun q => ih { q with trailed := false })

/-- A line of values alone is read value by value. -/
theorem run_values (p : Parse) (values : List Text) :
    p.run (values.map .value) = values.foldlM setValue p := by
  induction values generalizing p with
  | nil => rfl
  | cons text values ih =>
      rw [List.map_cons, run, List.foldlM_cons]
      exact congrArg _ (funext fun q => ih q)

/-- An option that is taken changes its own text and nothing else. -/
theorem take_flag_ok {f : Flag} {text : Text} (h : p.take (.flag f text) = .ok q) :
    q.operation = p.operation ∧ q.table = p.table ∧ q.led = p.led ∧ q.trailed = false ∧
      f.read text = .ok (q.flagged f) ∧ ∀ g ≠ f, q.flagged g = p.flagged g := by
  obtain ⟨p', hp', h⟩ := bind_eq_ok.1 h
  cases pure_eq_ok.1 h
  obtain ⟨hsame, hread, hothers⟩ := setAttached_ok hp'
  refine ⟨hsame.operation, hsame.table, hsame.led, rfl, ?_, fun g hg => ?_⟩
  · rw [hread]
    cases f <;> rfl
  · rw [← hothers g hg]
    cases g <;> rfl

/-- A flag has the last value that the parts give it, or else the one it had. -/
theorem flagged_foldlM {pieces : List Piece} (h : pieces.foldlM take p = .ok q) (f : Flag) :
    match (pieces.filterMap (Piece.given? f)).getLast? with
    | none => q.flagged f = p.flagged f
    | some text => f.read text = .ok (q.flagged f) := by
  induction pieces generalizing p with
  | nil =>
      cases h
      rfl
  | cons piece pieces ih =>
      rw [List.foldlM_cons] at h
      obtain ⟨p', hp', h⟩ := bind_eq_ok.1 h
      have hrest := ih h
      cases piece with
      | value text =>
          have hskip : (Piece.value text :: pieces).filterMap (Piece.given? f) =
              pieces.filterMap (Piece.given? f) := rfl
          rw [hskip, ← flagged_setValue hp' f]
          exact hrest
      | flag g text =>
          obtain ⟨_, _, _, _, hread, hothers⟩ := take_flag_ok hp'
          by_cases hg : g = f
          · subst hg
            have hkeep : (Piece.flag g text :: pieces).filterMap (Piece.given? g) =
                text :: pieces.filterMap (Piece.given? g) :=
              List.filterMap_cons_some (by simp [Piece.given?])
            rw [hkeep, List.getLast?_cons]
            cases hlast : (pieces.filterMap (Piece.given? g)).getLast? with
            | none =>
                rw [hlast] at hrest
                exact hrest ▸ hread
            | some last =>
                rw [hlast] at hrest
                exact hrest
          · have hskip : (Piece.flag g text :: pieces).filterMap (Piece.given? f) =
                pieces.filterMap (Piece.given? f) :=
              List.filterMap_cons_none (by simp [Piece.given?, hg])
            rw [hskip, ← hothers f (Ne.symm hg)]
            exact hrest

/-- The first two values so far are the operation and the table. -/
def Holds (p : Parse) : List Text → Prop
  | [] => p.operation = none ∧ p.table = none
  | [first] => Operation.ofText? first = p.operation ∧ p.operation.isSome = true ∧ p.table = none
  | first :: second :: _ =>
    Operation.ofText? first = p.operation ∧ p.operation.isSome = true ∧
      p.table = some (.name second)

/-- The next value goes behind those that are held. -/
theorem holds_setValue {values : List Text} {text : Text} (hp : p.Holds values)
    (hname : text = separatorMark → p.led = true) (h : p.setValue text = .ok q) :
    q.Holds (values ++ [text]) := by
  match values, hp with
  | [], ⟨hoperation, htable⟩ =>
      rcases setValue_cases h with ⟨_, o, ho, rfl⟩ | ⟨hsome, _, _⟩ | ⟨hsome, _, _⟩
      · exact ⟨ho, rfl, htable⟩
      · rw [hoperation] at hsome
        cases hsome
      · rw [hoperation] at hsome
        cases hsome
  | [first], ⟨hfirst, hoperation, htable⟩ =>
      rcases setValue_cases h with ⟨hnone, _⟩ | ⟨_, _, rfl⟩ | ⟨_, hsome, _⟩
      · rw [hnone] at hoperation
        cases hoperation
      · have hled : ¬ (text = separatorMark ∧ p.led = false) := by
          rintro ⟨hmark, hled⟩
          rw [hname hmark] at hled
          cases hled
        exact ⟨hfirst, hoperation, by rw [if_neg hled]⟩
      · rw [htable] at hsome
        cases hsome
  | first :: second :: rest, ⟨hfirst, hoperation, htable⟩ =>
      rcases setValue_cases h with ⟨hnone, _⟩ | ⟨_, hnone, _⟩ | ⟨_, _, rfl⟩
      · rw [hnone] at hoperation
        cases hoperation
      · rw [htable] at hnone
        cases hnone
      · exact ⟨hfirst, hoperation, htable⟩

/-- What is held depends on the operation and the table alone. -/
theorem Holds.congr {values : List Text} (h : p.Holds values)
    (hoperation : q.operation = p.operation) (htable : q.table = p.table) : q.Holds values := by
  match values, h with
  | [], h => exact ⟨hoperation ▸ h.1, htable ▸ h.2⟩
  | [_], h => exact ⟨hoperation ▸ h.1, hoperation ▸ h.2.1, htable ▸ h.2.2⟩
  | _ :: _ :: _, h => exact ⟨hoperation ▸ h.1, hoperation ▸ h.2.1, htable ▸ h.2.2⟩

/-- After a run over pieces the values among them are held, in order. -/
theorem holds_foldlM {pieces : List Piece} {values : List Text}
    (hunmarked : ∀ text, .value text ∈ pieces → text ≠ separatorMark) (hp : p.Holds values)
    (h : pieces.foldlM take p = .ok q) : q.Holds (values ++ pieces.filterMap Piece.value?) := by
  induction pieces generalizing p values with
  | nil =>
      cases h
      simpa using hp
  | cons piece pieces ih =>
      rw [List.foldlM_cons] at h
      obtain ⟨p', hp', hrun⟩ := bind_eq_ok.1 h
      have hrest := fun text ht => hunmarked text (List.mem_cons_of_mem piece ht)
      cases piece with
      | flag f text =>
          obtain ⟨hoperation, htable, _⟩ := take_flag_ok hp'
          exact ih hrest (hp.congr hoperation htable) hrun
      | value text =>
          have hmark : text = separatorMark → p.led = true := fun ht =>
            absurd ht (hunmarked text List.mem_cons_self)
          have hcons : values ++ (Piece.value text :: pieces).filterMap Piece.value? =
              (values ++ [text]) ++ pieces.filterMap Piece.value? := by simp [Piece.value?]
          rw [hcons]
          exact ih hrest (holds_setValue hp hmark hp') hrun

/-- A value `--` with a separator of its own is a name if it stands alone behind
the separator. -/
theorem holds_values {values behind : List Text} (hp : p.Holds values)
    (hname : ∀ text ∈ behind, text = separatorMark → p.led = true ∧ behind = [text])
    (h : behind.foldlM setValue p = .ok q) : q.Holds (values ++ behind) := by
  induction behind generalizing p values with
  | nil =>
      cases h
      simpa using hp
  | cons text behind ih =>
      rw [List.foldlM_cons] at h
      obtain ⟨p', hp', hrun⟩ := bind_eq_ok.1 h
      rw [List.append_cons]
      refine ih (holds_setValue hp (fun hmark => ?_) hp') (fun other hother hmark => ?_) hrun
      · exact (hname text List.mem_cons_self hmark).1
      · have hone := (hname other (List.mem_cons_of_mem text hother) hmark).2
        rw [(List.cons.inj hone).2] at hother
        exact absurd hother List.not_mem_nil

/-- Behind an option with its text no value trails. -/
theorem trailed_foldlM {pieces : List Piece} {f : Flag} {text : Text}
    (hlast : pieces.getLast? = some (.flag f text)) (h : pieces.foldlM take p = .ok q) :
    q.trailed = false := by
  obtain ⟨before, rfl⟩ := List.getLast?_eq_some_iff.1 hlast
  rw [List.foldlM_append] at h
  obtain ⟨p', _, h⟩ := bind_eq_ok.1 h
  rw [List.foldlM_cons] at h
  obtain ⟨p'', hlast, h⟩ := bind_eq_ok.1 h
  cases h
  exact (take_flag_ok hlast).2.2.2.1

/-- Values leave the options as they are. -/
theorem flagged_values {behind : List Text} (h : behind.foldlM setValue p = .ok q) (f : Flag) :
    q.flagged f = p.flagged f := by
  induction behind generalizing p with
  | nil =>
      cases h
      rfl
  | cons text behind ih =>
      rw [List.foldlM_cons] at h
      obtain ⟨p', hp', hrun⟩ := bind_eq_ok.1 h
      exact (ih hrun).trans (flagged_setValue hp' f)

/-- The mark that ends the options leaves them as they are. -/
theorem flagged_setSeparator (p : Parse) (f : Flag) : p.setSeparator.flagged f = p.flagged f := by
  unfold setSeparator
  split
  · cases f <;> rfl
  · split <;> cases f <;> rfl

/-- The mark that ends the options leaves the values as they are. -/
theorem setSeparator_values (p : Parse) :
    p.setSeparator.operation = p.operation ∧ p.setSeparator.table = p.table := by
  unfold setSeparator
  split
  · exact ⟨rfl, rfl⟩
  · split <;> exact ⟨rfl, rfl⟩

end Parse

/-! ## what a line is read as -/

namespace Line

/-- Whether the one value behind the separator follows a flag; the separator then
leads it, even if it is `--` again. -/
def led (l : Line) : Bool :=
  match l.behind, l.pieces.getLast? with
  | some [_], some (.flag _ _) => true
  | _, _ => false

/-- A flag has a value on a line. -/
def Reads (l : Line) (f : Flag) (v : Value) : Prop :=
  match l.given f with
  | none => v = .null
  | some text => f.read text = .ok v

/-- The words of a line from the separator on. -/
def tailWords (l : Line) : List Word :=
  match l.behind with
  | none => []
  | some values => .separator :: values.map .value

/-- Every argument of the tail of a line is a word. -/
theorem wordsOf_tail (l : Line) : wordsOf l.tail = some l.tailWords := by
  unfold tail tailWords
  cases l.behind with
  | none => rfl
  | some values => exact if_pos rfl

/-- The values in the tail are those behind the mark. -/
theorem countP_tailWords (l : Line) :
    l.tailWords.countP Word.isValue = (l.behind.getD []).length := by
  unfold tailWords
  cases l.behind with
  | none => rfl
  | some values =>
      have hall : ∀ w ∈ values.map Word.value, w.isValue = true := by simp [Word.isValue]
      rw [List.countP_cons_of_neg (by simp [Word.isValue]), List.countP_eq_length.2 hall,
        List.length_map, Option.getD_some]

/-- A line that is accepted misses no value. -/
theorem missing_of_finish {p : Parse} {a : Arguments} (h : p.finish = .ok a) : p.missing = 0 := by
  unfold Parse.finish at h
  split at h
  · next operation table _ hoperation htable => simp [Parse.missing, hoperation, htable]
  · cases h

variable {l : Line}

/-- On a line that is accepted, and has no more than two values, each part is
taken for what is meant: there would not be values enough otherwise. -/
theorem words_of_accepted {a : Arguments} (h : readArguments l.arguments = .ok a)
    (hvalues : l.values.length = 2) :
    ∃ p, Parse.run {} (l.pieces.map Piece.word ++ l.tailWords) = .ok p ∧ p.finish = .ok a := by
  unfold readArguments at h
  cases hwords : wordsOf l.arguments with
  | none => simp [hwords] at h
  | some words =>
      rw [hwords] at h
      obtain ⟨p, hrun, hfinish⟩ := bind_eq_ok.1 h
      obtain ⟨first, others, rfl, hothers, hfirst⟩ := wordsOf_append l.unmarked hwords
      obtain rfl : l.tailWords = others := Option.some.inj (l.wordsOf_tail.symm.trans hothers)
      -- Two values are missing at first and none in the end, and the line has only two.
      have hmissing := Parse.missing_run hrun
      have hnone := missing_of_finish hfinish
      have htwo : ({} : Parse).missing = 2 := rfl
      rw [List.countP_append, countP_tailWords] at hmissing
      rw [values, List.length_append] at hvalues
      have hlook := (countP_words hfirst).2 (by omega)
      exact ⟨p, hlook ▸ hrun, hfinish⟩

/-- No operation is spelt like the mark that ends the options. -/
theorem text_ne_separatorMark (operation : Operation) :
    (operation.text : Text) ≠ separatorMark := by
  cases operation <;> decide

/-- A table with the name `--` is led by a separator of its own. -/
theorem led_setSeparator {q : Parse} {behind : List Text} {operation : Operation} {table : Text}
    (hq : l.pieces.foldlM Parse.take {} = .ok q)
    (hholds : q.Holds (l.pieces.filterMap Piece.value?)) (hbehind : l.behind = some behind)
    (hvalues : l.pieces.filterMap Piece.value? ++ behind = [(operation.text : Text), table])
    (hled : table = separatorMark → l.led = true) {text : Text} (ht : text ∈ behind)
    (hmark : text = separatorMark) : q.setSeparator.led = true ∧ behind = [text] := by
  have hmem : text ∈ [(operation.text : Text), table] := hvalues ▸ List.mem_append_right _ ht
  have htable : text = table := by
    rcases List.mem_cons.1 hmem with h | h
    · exact absurd (h ▸ hmark) (text_ne_separatorMark operation)
    · exact List.mem_singleton.1 h
  have hleads := hled (htable ▸ hmark)
  unfold led at hleads
  split at hleads
  · next only f given hone hlast =>
    rw [hbehind, Option.some.injEq] at hone
    subst hone
    obtain ⟨hfirst, _⟩ := List.append_inj' (hvalues.trans (List.append_cons [] _ _)) rfl
    rw [hfirst] at hholds
    have htrailed := Parse.trailed_foldlM hlast hq
    refine ⟨?_, by rw [List.mem_singleton.1 ht]⟩
    simp [Parse.setSeparator, htrailed, hholds.2.2]
  · cases hleads

/-- What a run over the words of a line comes to. -/
theorem run_words {p : Parse} {operation : Operation} {table : Text}
    (h : Parse.run {} (l.pieces.map Piece.word ++ l.tailWords) = .ok p)
    (hvalues : l.values = [(operation.text : Text), table])
    (hled : table = separatorMark → l.led = true) :
    p.Holds l.values ∧ ∀ f, l.Reads f (p.flagged f) := by
  rw [Parse.run_pieces] at h
  obtain ⟨q, hq, hrun⟩ := bind_eq_ok.1 h
  have hstart : ({} : Parse).Holds [] := ⟨rfl, rfl⟩
  have hholds := Parse.holds_foldlM l.unmarked hstart hq
  have hflags : ∀ f, l.Reads f (q.flagged f) := by
    intro f
    have hf := Parse.flagged_foldlM hq f
    have hnull : ({} : Parse).flagged f = .null := by cases f <;> rfl
    rw [hnull] at hf
    exact hf
  rw [List.nil_append] at hholds
  unfold tailWords at hrun
  unfold values
  cases hbehind : l.behind with
  | none =>
      rw [hbehind] at hrun
      cases hrun
      rw [Option.getD_none, List.append_nil]
      exact ⟨hholds, hflags⟩
  | some behind =>
      rw [hbehind] at hrun
      simp only [Parse.run, Parse.run_values] at hrun
      obtain ⟨hoperation, htable⟩ := q.setSeparator_values
      refine ⟨?_, fun f => ?_⟩
      · refine Parse.holds_values (hholds.congr hoperation htable) (fun text ht hmark => ?_) hrun
        rw [values, hbehind] at hvalues
        exact led_setSeparator hq hholds hbehind hvalues hled ht hmark
      · rw [Parse.flagged_values hrun, Parse.flagged_setSeparator]
        exact hflags f

/-- What a line is read as. -/
structure ReadsAs (l : Line) (operation : Operation) (table : Text) (a : Arguments) : Prop where
  operation : a.operation = operation
  table : a.table = .name table
  select : l.Reads .select a.select
  options : l.Reads .options a.options
  metadata : l.Reads .metadata (Value.ofOption (a.metadata.map .str))
  values : l.Reads .values a.values
  rowId : l.Reads .id a.rowId
  patch : l.Reads .patch a.patch

/-- **Lines**: a line of an operation and a table that is accepted asks for the
operation on the table, and each flag has the last value that it is given. -/
theorem readsAs_of_accepted {operation : Operation} {table : Text} {a : Arguments}
    (h : readArguments l.arguments = .ok a)
    (hvalues : l.values = [(operation.text : Text), table])
    (hled : table = separatorMark → l.led = true) : l.ReadsAs operation table a := by
  obtain ⟨p, hrun, hfinish⟩ := words_of_accepted h (by rw [hvalues]; rfl)
  obtain ⟨hholds, hflags⟩ := run_words hrun hvalues hled
  rw [hvalues] at hholds
  obtain ⟨hoperation, _, htable⟩ := hholds
  have hword : Operation.ofText? operation.text = some operation := by cases operation <;> decide
  rw [hword] at hoperation
  unfold Parse.finish at hfinish
  rw [← hoperation, htable] at hfinish
  split at hfinish
  · next o t _ ho ht =>
    cases ho
    cases ht
    cases hfinish
    exact ⟨rfl, rfl, hflags .select, hflags .options, hflags .metadata, hflags .values,
      hflags .id, hflags .patch⟩
  · cases hfinish

end Line

end GraphDoc.CommandLine
