import GraphDoc.Proofs.Document.Named
import GraphDoc.Proofs.Document.Spelling
import Mathlib.Data.List.Induction

/-!
# GraphDoc.Proofs.Document.Reading

A document can be read in one way only.

The spelling of a document determines it (`Document.spelling_injective`).
Fields and arguments are read from the front, up to what cannot belong to them
(`Node.spelling_append_inj`); types are read from the back, since their marks
stand behind them (`TypeRef.append_spelling_inj`).  The printer keeps to the
spelling, so the text of an answer determines its document.
-/

namespace GraphDoc

open Name

/-! ## arguments -/

/-- Different numbers have different digits. -/
theorem Text.ofNat_injective {m n : Nat} (h : Text.ofNat m = Text.ofNat n) : m = n := by
  have hdigits : Nat.toDigits 10 m = Nat.toDigits 10 n :=
    List.map_injective_iff.2 (fun c d hc => CodePoint.char.inj hc) h
  rw [← Nat.ofDigitChars_ten_toDigits (n := m), hdigits, Nat.ofDigitChars_ten_toDigits]

section

variable {r s : List Lexeme}

/-- The value of an argument can be read off the front. -/
theorem ArgumentValue.spelling_append_inj {v w : ArgumentValue}
    (h : v.spelling ++ r = w.spelling ++ s) : v = w ∧ r = s := by
  cases v with
  | var name =>
      cases w with
      | var other => simpa [ArgumentValue.spelling] using h
      | int n => simp [ArgumentValue.spelling] at h
  | int n =>
      cases w with
      | var other => simp [ArgumentValue.spelling] at h
      | int m =>
          obtain ⟨hword, hrest⟩ := List.cons.inj h
          rw [Text.ofNat_injective (Lexeme.word.inj hword)]
          exact ⟨rfl, hrest⟩

/-- An argument can be read off the front. -/
theorem Argument.spelling_append_inj {a b : Argument} (h : a.spelling ++ r = b.spelling ++ s) :
    a = b ∧ r = s := by
  obtain ⟨name, value⟩ := a
  obtain ⟨name', value'⟩ := b
  obtain ⟨hname, hcolon⟩ := List.cons.inj h
  obtain ⟨hvalue, hrest⟩ := ArgumentValue.spelling_append_inj (List.cons.inj hcolon).2
  exact ⟨congrArg₂ Argument.mk (Lexeme.word.inj hname) hvalue, hrest⟩

/-- Arguments are read up to the bracket behind them. -/
theorem Argument.flatMap_spelling_append_inj {as bs : List Argument}
    (h : as.flatMap Argument.spelling ++ .sign ')' :: r =
      bs.flatMap Argument.spelling ++ .sign ')' :: s) : as = bs ∧ r = s := by
  induction as generalizing bs with
  | nil =>
      cases bs with
      | nil => exact ⟨rfl, (List.cons.inj h).2⟩
      | cons b bs => cases h
  | cons a as ih =>
      cases bs with
      | nil => cases h
      | cons b bs =>
          rw [List.flatMap_cons, List.flatMap_cons, List.append_assoc, List.append_assoc] at h
          obtain ⟨hfirst, hrest⟩ := Argument.spelling_append_inj h
          obtain ⟨hothers, hrest⟩ := ih hrest
          exact ⟨by rw [hfirst, hothers], hrest⟩

/-! ## fields -/

/-- What stands behind a field: neither arguments nor a selection. -/
def BehindField (ls : List Lexeme) : Prop :=
  ls.head? ≠ some (.sign '(') ∧ ls.head? ≠ some (.sign '\x7b')

/-- The head of a field is read up to what cannot be its arguments. -/
theorem headSpelling_append_inj {name name' : Text} {as bs : List Argument}
    (hr : r.head? ≠ some (.sign '(')) (hs : s.head? ≠ some (.sign '('))
    (h : headSpelling name as ++ r = headSpelling name' bs ++ s) :
    name = name' ∧ as = bs ∧ r = s := by
  obtain ⟨hname, hround⟩ := List.cons.inj h
  refine ⟨Lexeme.word.inj hname, ?_⟩
  cases as with
  | nil =>
      cases bs with
      | nil => exact ⟨rfl, hround⟩
      | cons b bs =>
          obtain rfl : r = _ := hround
          exact absurd rfl hr
  | cons a as =>
      cases bs with
      | nil =>
          obtain rfl : _ = s := hround
          exact absurd rfl hs
      | cons b bs =>
          have hinner := (List.cons.inj hround).2
          simp only [List.append_eq, List.append_assoc, List.singleton_append] at hinner
          exact Argument.flatMap_spelling_append_inj hinner

/-- Behind a field stand further fields, or the bracket that ends them. -/
theorem behindField_spellings (nodes : List Node) :
    BehindField (Node.spellings nodes ++ .sign '\x7d' :: r) := by
  cases nodes with
  | nil => exact ⟨by simp [Node.spellings], by simp [Node.spellings]⟩
  | cons n rest =>
      cases n <;> exact ⟨by simp [Node.spellings, Node.spelling, headSpelling],
        by simp [Node.spellings, Node.spelling, headSpelling]⟩

mutual
/-- A field is read up to what cannot belong to it. -/
theorem Node.spelling_append_inj : (n m : Node) → {r s : List Lexeme} → BehindField r →
    BehindField s → n.spelling ++ r = m.spelling ++ s → n = m ∧ r = s
  | .leaf name as, .leaf name' bs, r, s, hr, hs, h => by
      obtain ⟨hname, has, hrest⟩ := headSpelling_append_inj hr.1 hs.1 h
      rw [hname, has]
      exact ⟨rfl, hrest⟩
  | .leaf name as, .branch name' bs ms, r, s, hr, hs, h => by
      rw [Node.spelling, Node.spelling, List.append_assoc] at h
      obtain ⟨_, _, hrest⟩ := headSpelling_append_inj hr.1 (by simp [inCurly]) h
      exact absurd (by rw [hrest]; rfl) hr.2
  | .branch name as ns, .leaf name' bs, r, s, hr, hs, h => by
      rw [Node.spelling, Node.spelling, List.append_assoc] at h
      obtain ⟨_, _, hrest⟩ := headSpelling_append_inj (by simp [inCurly]) hs.1 h
      exact absurd (by rw [← hrest]; rfl) hs.2
  | .branch name as ns, .branch name' bs ms, r, s, _, _, h => by
      rw [Node.spelling, Node.spelling, List.append_assoc, List.append_assoc] at h
      obtain ⟨hname, has, hcurly⟩ :=
        headSpelling_append_inj (by simp [inCurly]) (by simp [inCurly]) h
      have hbelow := (List.cons.inj hcurly).2
      simp only [List.append_eq, List.append_assoc, List.singleton_append] at hbelow
      obtain ⟨hnodes, hrest⟩ := Node.spellings_append_inj ns ms hbelow
      rw [hname, has, hnodes]
      exact ⟨rfl, hrest⟩

/-- Fields are read up to the bracket behind them. -/
theorem Node.spellings_append_inj : (ns ms : List Node) → {r s : List Lexeme} →
    Node.spellings ns ++ .sign '\x7d' :: r = Node.spellings ms ++ .sign '\x7d' :: s →
      ns = ms ∧ r = s
  | [], [], _, _, h => ⟨rfl, (List.cons.inj h).2⟩
  | [], m :: ms, _, _, h => by
      cases m <;> simp [Node.spellings, Node.spelling, headSpelling] at h
  | n :: ns, [], _, _, h => by
      cases n <;> simp [Node.spellings, Node.spelling, headSpelling] at h
  | n :: ns, m :: ms, r, s, h => by
      rw [Node.spellings, Node.spellings, List.append_assoc, List.append_assoc] at h
      obtain ⟨hfirst, hrest⟩ := Node.spelling_append_inj n m (behindField_spellings ns)
        (behindField_spellings ms) h
      obtain ⟨hothers, hrest⟩ := Node.spellings_append_inj ns ms hrest
      rw [hfirst, hothers]
      exact ⟨rfl, hrest⟩
end

/-! ## types and variables -/

def TypeRef.lastLexeme : TypeRef → Lexeme
  | named name => .word name
  | list _ => .sign ']'
  | nonNull _ => .sign '!'

/-- A type ends with its last lexeme, whatever stands before. -/
theorem TypeRef.getLast?_append_spelling (ls : List Lexeme) (t : TypeRef) :
    (ls ++ t.spelling).getLast? = some t.lastLexeme := by
  cases t with
  | named name => exact List.getLast?_concat
  | list item =>
      rw [TypeRef.spelling, ← List.cons_append, ← List.append_assoc]
      exact List.getLast?_concat
  | nonNull inner =>
      rw [TypeRef.spelling, ← List.append_assoc]
      exact List.getLast?_concat

/-- Two types at the end of the same lexemes end alike. -/
theorem TypeRef.lastLexeme_eq {t u : TypeRef} (h : r ++ t.spelling = s ++ u.spelling) :
    t.lastLexeme = u.lastLexeme := by
  have hlast := congrArg List.getLast? h
  rw [getLast?_append_spelling, getLast?_append_spelling] at hlast
  exact Option.some.inj hlast

/-- A type is read from its end: the marks of a list and of a value that must be
there stand last. -/
theorem TypeRef.append_spelling_inj {t u : TypeRef} (h : r ++ t.spelling = s ++ u.spelling) :
    t = u ∧ r = s := by
  induction t generalizing u r s with
  | named name =>
      cases u with
      | named other =>
          obtain rfl : name = other := Lexeme.word.inj (lastLexeme_eq h)
          exact ⟨rfl, List.append_cancel_right h⟩
      | list other => cases lastLexeme_eq h
      | nonNull other => cases lastLexeme_eq h
  | list item ih =>
      cases u with
      | named other => cases lastLexeme_eq h
      | list other =>
          have hclosed : ((r ++ [.sign '[']) ++ item.spelling) ++ [.sign ']'] =
              ((s ++ [.sign '[']) ++ other.spelling) ++ [.sign ']'] := by
            simpa [TypeRef.spelling] using h
          obtain ⟨hitem, hopen⟩ := ih (List.append_cancel_right hclosed)
          exact ⟨congrArg TypeRef.list hitem, List.append_cancel_right hopen⟩
      | nonNull other => cases lastLexeme_eq h
  | nonNull inner ih =>
      cases u with
      | named other => cases lastLexeme_eq h
      | list other => cases lastLexeme_eq h
      | nonNull other =>
          have hmarked : (r ++ inner.spelling) ++ [.sign '!'] =
              (s ++ other.spelling) ++ [.sign '!'] := by
            simpa [TypeRef.spelling] using h
          obtain ⟨hinner, hrest⟩ := ih (List.append_cancel_right hmarked)
          exact ⟨congrArg TypeRef.nonNull hinner, hrest⟩

/-- The definition of a variable can be read off the end. -/
theorem VariableDefinition.append_spelling_inj {d e : VariableDefinition}
    (h : r ++ d.spelling = s ++ e.spelling) : d = e ∧ r = s := by
  obtain ⟨name, type⟩ := d
  obtain ⟨name', type'⟩ := e
  rw [VariableDefinition.spelling, VariableDefinition.spelling, ← List.append_assoc,
    ← List.append_assoc] at h
  obtain ⟨htype, hfront⟩ := TypeRef.append_spelling_inj h
  obtain ⟨hrest, hname⟩ := List.append_inj' hfront rfl
  have hword : Lexeme.word name = Lexeme.word name' := (List.cons.inj (List.cons.inj hname).2).1
  exact ⟨congrArg₂ VariableDefinition.mk (Lexeme.word.inj hword) htype, hrest⟩

end

/-- Declared variables are read from the last to the first. -/
theorem VariableDefinition.flatMap_spelling_injective {ds es : List VariableDefinition}
    (h : ds.flatMap VariableDefinition.spelling = es.flatMap VariableDefinition.spelling) :
    ds = es := by
  induction ds using List.reverseRecOn generalizing es with
  | nil =>
      cases es with
      | nil => rfl
      | cons e es => cases h
  | append_singleton ds d ih =>
      rcases List.eq_nil_or_concat es with rfl | ⟨es, e, rfl⟩
      · simp [VariableDefinition.spelling] at h
      · rw [List.concat_eq_append] at h ⊢
        rw [List.flatMap_append, List.flatMap_append, List.flatMap_singleton,
          List.flatMap_singleton] at h
        obtain ⟨hlast, hothers⟩ := VariableDefinition.append_spelling_inj h
        rw [hlast, ih hothers]

/-! ## documents -/

/-- Different lexemes stay different in round brackets. -/
theorem inRound_injective {inner other : List Lexeme} (h : inRound inner = inRound other) :
    inner = other := by
  cases inner with
  | nil =>
      cases other with
      | nil => rfl
      | cons b bs => cases h
  | cons a as =>
      cases other with
      | nil => cases h
      | cons b bs => exact List.append_cancel_right (List.cons.inj h).2

/-- Two lists that are cut at the first of a mark. -/
theorem append_cons_inj {α : Type} {mark : α} {xs ys r s : List α} (hx : mark ∉ xs)
    (hy : mark ∉ ys) (h : xs ++ mark :: r = ys ++ mark :: s) : xs = ys ∧ r = s := by
  induction xs generalizing ys with
  | nil =>
      cases ys with
      | nil => exact ⟨rfl, (List.cons.inj h).2⟩
      | cons y ys => exact absurd ((List.cons.inj h).1 ▸ List.mem_cons_self) hy
  | cons x xs ih =>
      rw [List.mem_cons, not_or] at hx
      cases ys with
      | nil => exact absurd (List.cons.inj h).1.symm hx.1
      | cons y ys =>
          rw [List.mem_cons, not_or] at hy
          obtain ⟨hfirst, hrest⟩ := List.cons.inj h
          obtain ⟨hothers, hrest⟩ := ih hx.2 hy.2 hrest
          exact ⟨congrArg₂ List.cons hfirst hothers, hrest⟩

/-- No type holds a curly bracket. -/
theorem TypeRef.curly_notMem_spelling (t : TypeRef) : .sign '\x7b' ∉ t.spelling := by
  induction t with
  | named name => simp [TypeRef.spelling]
  | list item ih => simp [TypeRef.spelling, ih]
  | nonNull inner ih => simp [TypeRef.spelling, ih]

/-- No selection starts among the declared variables. -/
theorem curly_notMem_definitions (ds : List VariableDefinition) :
    .sign '\x7b' ∉ inRound (ds.flatMap VariableDefinition.spelling) := by
  have hinner : .sign '\x7b' ∉ ds.flatMap VariableDefinition.spelling := by
    simp [VariableDefinition.spelling, TypeRef.curly_notMem_spelling]
  unfold inRound
  split
  · exact List.not_mem_nil
  · simp only [List.mem_cons, List.mem_append, not_or]
    exact ⟨by simp, hinner, by simp⟩

/-- A kind of operation is found by its word. -/
theorem OperationKind.ofText?_text (k : OperationKind) : ofText? k.text = some k := by
  simp only [ofText?, Text.ofString_beq]
  cases k <;> decide

/-- Different kinds of operations have different words. -/
theorem OperationKind.text_injective {k l : OperationKind} (h : (k.text : Text) = l.text) :
    k = l :=
  Option.some.inj (by rw [← ofText?_text k, h, ofText?_text l])

/-- **Unique reading**: documents with the same spelling are the same. -/
theorem Document.spelling_injective {c d : Document} (h : c.spelling = d.spelling) : c = d := by
  obtain ⟨kind, name, definitions, root⟩ := c
  obtain ⟨kind', name', definitions', root'⟩ := d
  obtain ⟨hkind, hrest⟩ := List.cons.inj h
  obtain ⟨hname, hrest⟩ := List.cons.inj hrest
  obtain ⟨hround, hcurly⟩ := append_cons_inj (curly_notMem_definitions definitions)
    (curly_notMem_definitions definitions') hrest
  have hdefinitions := VariableDefinition.flatMap_spelling_injective (inRound_injective hround)
  have hroot : root = root' :=
    (Node.spelling_append_inj root root' ⟨by simp, by simp⟩ ⟨by simp, by simp⟩ hcurly).1
  have hkinds : kind = kind' :=
    OperationKind.text_injective (Lexeme.word.inj hkind)
  have hnames : name = name' := Lexeme.word.inj hname
  rw [hkinds, hnames, hdefinitions, hroot]

/-! ## answers -/

/-- The names of a table and of its columns and relations are names of the
grammar. -/
def Table.Named (t : Table) : Prop := valid t.name = true ∧ AllValid t.memberNames

instance (t : Table) : Decidable t.Named :=
  inferInstanceAs (Decidable (valid t.name = true ∧ AllValid t.memberNames))

/-- A table, the tables that its relations may lead to, and a registry, all
with names of the grammar. -/
structure NamedSetting (registry : Registry) (tables : List Table) (table : Table) : Prop where
  registry : registry.Named
  tables : ∀ t ∈ tables, t.Named
  table : table.Named

/-- What the operations answer in named settings, to keys that are named. -/
inductive NamedAnswer : BoundDocument → Prop where
  | rows {registry : Registry} {tables : List Table} {table : Table} {spec : Option Spec}
      {o : RowOptions} {c : BoundDocument} (names : NamedSetting registry tables table)
      (answer : rowsQuery registry tables table spec o = .ok c) : NamedAnswer c
  | row {registry : Registry} {tables : List Table} {table : Table} {spec : Option Spec}
      {field type : Text} {keyValue : Value} {c : BoundDocument}
      (names : NamedSetting registry tables table) (keyField : valid field = true)
      (keyType : valid type = true)
      (answer : rowQuery registry tables table spec (.str field) (.str type) keyValue = .ok c) :
      NamedAnswer c
  | count {table : Table} {o : RowOptions} {c : BoundDocument} (names : table.Named)
      (answer : countQuery table o = .ok c) : NamedAnswer c
  | create {registry : Registry} {tables : List Table} {table : Table} {selection : Option Spec}
      {values : Value} {c : BoundDocument} (names : NamedSetting registry tables table)
      (answer : createMutation registry tables table selection values = .ok c) : NamedAnswer c
  | update {registry : Registry} {tables : List Table} {table : Table} {selection : Option Spec}
      {rowId patch : Value} {c : BoundDocument} (names : NamedSetting registry tables table)
      (answer : updateMutation registry tables table selection rowId patch = .ok c) :
      NamedAnswer c
  | delete {table : Table} {rowId : Value} (names : table.Named) :
      NamedAnswer (deleteMutation table rowId)

section

variable {registry : Registry} {tables : List Table} {table : Table}

/-- The fields of a selection in a named setting have names only. -/
theorem NamedSetting.allValid_requests (names : NamedSetting registry tables table)
    {spec : Option Spec} {nodes : List Node} (h : Requests registry tables table spec nodes) :
    AllValid (Node.allNames nodes) := by
  rw [h.allValid_iff names.registry]
  exact fun name hname =>
    hname.forall_names (fun t ht => (names.tables t ht).2) names.table.2 h

/-- Where all names of the setting are valid, so are those of what a mutation answers
with. -/
theorem NamedSetting.allValid_rowPayload (names : NamedSetting registry tables table)
    {selection : Option Spec} {payload : List Node}
    (h : rowPayload registry tables table selection = .ok payload) :
    AllValid (Node.allNames payload) := by
  obtain ⟨nodes, hnodes, hpayload⟩ := rowPayload_eq_ok.1 h
  have hsingular := Naming.valid_singular names.table.1
  rw [hpayload]
  simp [Node.allNames, Node.names, hsingular, names.allValid_requests hnodes]

/-- All names of an answer in a named setting are valid. -/
theorem NamedAnswer.named {c : BoundDocument} (h : NamedAnswer c) : c.document.Named := by
  cases h with
  | rows names answer =>
      obtain ⟨_, rows, _, hrows, _, hc⟩ := rowsQuery_eq_ok.1 answer
      rw [hc, rowsDocument_named_iff (accepted_of_valid names.table.1)]
      exact ⟨names.table.1, names.allValid_requests ((selectionNodes_eq_ok _ _ _).1 hrows)⟩
  | row names keyField keyType answer =>
      obtain ⟨field, type, nodes, hfield, htype, hnodes, hc⟩ := rowQuery_eq_ok.1 answer
      cases (checkName_eq_ok_iff.1 hfield).1
      cases (checkName_eq_ok_iff.1 htype).1
      rw [hc, rowDocument_named_iff (accepted_of_valid names.table.1)]
      exact ⟨names.table.1, ⟨keyField, keyType⟩,
        names.allValid_requests ((selectionNodes_eq_ok _ _ _).1 hnodes)⟩
  | count names answer =>
      rw [(countQuery_eq_ok.1 answer).2, countDocument_named_iff (accepted_of_valid names.1)]
      exact names.1
  | create names answer =>
      obtain ⟨payload, _, hpayload, _, hc⟩ := createMutation_eq_ok.1 answer
      rw [hc, mutationDocument_named_iff (accepted_of_valid names.table.1) (by decide)
        Naming.valid_createInputType]
      exact ⟨names.table.1, names.allValid_rowPayload hpayload⟩
  | update names answer =>
      obtain ⟨_, payload, _, hpayload, _, hc⟩ := updateMutation_eq_ok.1 answer
      rw [hc, mutationDocument_named_iff (accepted_of_valid names.table.1) (by decide)
        Naming.valid_updateInputType]
      exact ⟨names.table.1, names.allValid_rowPayload hpayload⟩
  | delete names =>
      rw [deleteMutation, mutationDocument_named_iff (accepted_of_valid names.1) (by decide)
        Naming.valid_deleteInputType]
      exact ⟨names.1, by decide⟩

end

/-- **The text determines the document**: two answers with the same text have
the same document, with the same variables and the same fields at every
depth. -/
theorem document_eq_of_text_eq {c d : BoundDocument} (hc : NamedAnswer c) (hd : NamedAnswer d)
    (h : c.text = d.text) : c.document = d.document := by
  have hspelling : c.document.spelling = d.document.spelling := by
    rw [← Document.lexemes_text hc.named, ← Document.lexemes_text hd.named]
    exact congrArg lexemes h
  exact Document.spelling_injective hspelling

/-- All plain columns of an order and the same columns by name, for pages of
different sizes, give the same text, and so the same document. -/
theorem document_eq_of_text_eq_orders :
    NamedSetting .standard Circle.tables Circle.order ∧ ∃ c d : BoundDocument,
      rowsQuery .standard Circle.tables Circle.order none { limit := .int 1 } = .ok c ∧
      rowsQuery .standard Circle.tables Circle.order
        (some [(.name "id", .leaf), (.name "leadTime", .leaf)]) { limit := .int 50 } = .ok d ∧
      c.text = d.text ∧ c.document = d.document := by
  have names : NamedSetting .standard Circle.tables Circle.order :=
    ⟨Registry.named_standard, by decide, by decide⟩
  have hc : rowsQuery .standard Circle.tables Circle.order none { limit := .int 1 } = .ok _ := rfl
  have hd : rowsQuery .standard Circle.tables Circle.order
      (some [(.name "id", .leaf), (.name "leadTime", .leaf)]) { limit := .int 50 } = .ok _ := rfl
  exact ⟨names, _, _, hc, hd, rfl,
    document_eq_of_text_eq (.rows names hc) (.rows names hd) rfl⟩

end GraphDoc
