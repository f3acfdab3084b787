import GraphDoc.Naming.Asked
import GraphDoc.Proofs.Naming.Grammar
import GraphDoc.Proofs.Text.Case

/-!
# GraphDoc.Proofs.Naming.Wire

The names of a table taken together.

Neither camel case nor a rule of the plural uses a text up (`plural_eq_nil_iff`).  So
the type of the orders on a table, which starts with the capital of the plural, is there
whenever the plural is (`askedOrderByType_eq`).  Where the name of a table is one of the
grammar, so is each wire name, and the field of one row and its type agree behind their
first character (`wireNames_coherent`).
-/

namespace GraphDoc

namespace Naming

open Name

/-! ## nothing is used up -/

/-- Lower camel case makes no text empty. -/
theorem camelLower_ne_nil {t : Text} (h : t ≠ []) : camelLower t ≠ [] := by
  obtain ⟨c, rest, rfl⟩ := List.exists_cons_of_ne_nil h
  exact List.append_ne_nil_of_left_ne_nil (Text.lowerPoint_ne_nil c) _

/-- No plural is empty. -/
theorem pluralize_ne_nil {t : Text} (h : t ≠ []) : pluralize t ≠ [] := by
  by_cases hb : EndsInBreak t
  · exact List.ne_nil_of_mem (mem_break_pluralize hb)
  · exact (formOf_pluralize h hb).ne_nil h

/-- Only the empty text has an empty plural. -/
theorem plural_eq_nil_iff {t : Text} : plural t = [] ↔ t = [] := by
  constructor
  · exact Decidable.not_imp_not.1 fun ht => pluralize_ne_nil (camelLower_ne_nil ht)
  · rintro rfl
    rfl

/-! ## names that are asked for -/

/-- A text that is not empty has each form that is asked for. -/
theorem asked_of_ne_nil (form : Text → Text) {t : Text} (h : t ≠ []) :
    asked form t = .ok (form t) :=
  if_neg fun hempty => h (List.isEmpty_iff.1 hempty)

/-- Text with the capital of its first code point; an empty text has none. -/
def capitalized : Text → Except Error Text
  | [] => .error (.misfit .noCharacter)
  | c :: rest => .ok (Text.upperPoint c ++ rest)

/-- A text that is not empty can be capitalised. -/
theorem exists_capitalized {t : Text} (h : t ≠ []) : ∃ word, capitalized t = .ok word := by
  obtain ⟨c, rest, rfl⟩ := List.exists_cons_of_ne_nil h
  exact ⟨_, rfl⟩

/-- A plural that is there has a first code point, so the type of the orders on a
table can always be built from it. -/
theorem askedOrderByType_eq (table : Text) :
    askedOrderByType table = (do return (← capitalized (← askedPlural table)) ++ "OrderBy") := by
  by_cases h : table = []
  · subst h
    rfl
  · obtain ⟨c, rest, hplural⟩ := List.exists_cons_of_ne_nil (mt plural_eq_nil_iff.1 h)
    have hmany : askedPlural table = .ok (c :: rest) :=
      (asked_of_ne_nil plural h).trans (congrArg Except.ok hplural)
    have horder : askedOrderByType table = .ok (orderByType table) := asked_of_ne_nil orderByType h
    rw [horder, hmany, orderByType, hplural]
    rfl

/-! ## the names of a table -/

/-- The names that a table goes by, each as far as it is there. -/
def wireNames (table : Text) : List (Except Error Text) := [
  askedSingular table, askedPlural table, askedOrderByType table,
  .ok (typeName table), .ok (filterType table), .ok (createInputType table),
  .ok (updateInputType table), .ok (deleteInputType table), .ok (patchType table)]

/-- Every wire name of a valid name is there and valid. -/
theorem valid_of_mem_wireNames {t : Text} (h : Name.valid t = true) :
    ∀ answer ∈ wireNames t, ∃ name, answer = .ok name ∧ Name.valid name = true := by
  have hne : t ≠ [] := ne_nil_of_valid h
  simp only [wireNames, List.forall_mem_cons, List.not_mem_nil, false_imp_iff, implies_true,
    and_true]
  exact ⟨⟨_, asked_of_ne_nil singular hne, valid_singular h⟩,
    ⟨_, asked_of_ne_nil plural hne, valid_plural h⟩,
    ⟨_, asked_of_ne_nil orderByType hne, valid_orderByType h⟩,
    ⟨_, rfl, valid_typeName h⟩, ⟨_, rfl, valid_filterType h⟩,
    ⟨_, rfl, valid_createInputType h⟩, ⟨_, rfl, valid_updateInputType h⟩,
    ⟨_, rfl, valid_deleteInputType h⟩, ⟨_, rfl, valid_patchType h⟩⟩

/-- The field of one row and its type are spelled alike but for the case of the first
character. -/
theorem singular_alike_typeName {t : Text} (h : Name.valid t = true) :
    (singular t).take 1 = Text.lower (t.take 1) ∧ (typeName t).take 1 = Text.upper (t.take 1) ∧
      (singular t).tail = (typeName t).tail := by
  obtain ⟨c, rest, rfl, hc, _⟩ := valid_iff.1 h
  obtain ⟨small, hsmall, _, _⟩ := lowerPoint_keepsNames c (isPart_of_isStart hc)
  obtain ⟨capital, hcapital, _, _⟩ := upperPoint_keepsNames c (isPart_of_isStart hc)
  have hone : singular (c :: rest) = small :: camelTail rest := by
    rw [singular, camelLower_cons hc, hsmall, List.singleton_append]
  have htype : typeName (c :: rest) = capital :: camelTail rest := by
    rw [typeName, camel_cons hc, hcapital, List.singleton_append]
  rw [hone, htype]
  exact ⟨by simp [Text.lower, hsmall], by simp [Text.upper, hcapital], rfl⟩

/-- **Names of a table**: where the name of a table is one of the grammar, each of its wire
names is there and is one of the grammar too, and so is the field of each mutation.  The
field of one row and its type are the same behind the first character, which is that of the
table in lower and in upper case.  The type of the orders is the plural with a capital,
which the plural never lacks, and `OrderBy` behind it. -/
theorem wireNames_coherent {t : Text} (h : Name.valid t = true) :
    (∀ answer ∈ wireNames t, ∃ name, answer = .ok name ∧ Name.valid name = true) ∧
      (∀ action, Name.valid action = true → Name.valid (mutationField action t) = true) ∧
      (askedSingular t = .ok (singular t) ∧ (singular t).take 1 = Text.lower (t.take 1) ∧
        (typeName t).take 1 = Text.upper (t.take 1) ∧ (singular t).tail = (typeName t).tail) ∧
      ∃ word, askedPlural t = .ok (plural t) ∧ capitalized (plural t) = .ok word ∧
        askedOrderByType t = .ok (word ++ "OrderBy") := by
  have hne : t ≠ [] := ne_nil_of_valid h
  have hone : askedSingular t = .ok (singular t) := asked_of_ne_nil singular hne
  have hmany : askedPlural t = .ok (plural t) := asked_of_ne_nil plural hne
  obtain ⟨word, hword⟩ := exists_capitalized (mt plural_eq_nil_iff.1 hne)
  have horder : askedOrderByType t = .ok (word ++ "OrderBy") := by
    calc askedOrderByType t
      _ = (do return (← capitalized (← askedPlural t)) ++ "OrderBy") := askedOrderByType_eq t
      _ = (do return (← capitalized (plural t)) ++ "OrderBy") := by rw [hmany]; rfl
      _ = .ok (word ++ "OrderBy") := by rw [hword]; rfl
  exact ⟨valid_of_mem_wireNames h, fun action haction => valid_mutationField haction h,
    ⟨hone, singular_alike_typeName h⟩, word, hmany, hword, horder⟩

/-- The wire names of a table of persons, whose name has a double underscore and a
plural of its own. -/
theorem wireNames_coherent_person :
    Name.valid "line__item_person" = true ∧ Name.valid "create" = true ∧
      (∀ answer ∈ wireNames "line__item_person",
        ∃ name, answer = .ok name ∧ Name.valid name = true) ∧
      Name.valid (mutationField "create" "line__item_person") = true ∧
      askedPlural "line__item_person" = .ok "line_itemPeople" ∧
      askedOrderByType "line__item_person" = .ok "Line_itemPeopleOrderBy" := by
  have hname : Name.valid "line__item_person" = true := by decide
  have haction : Name.valid "create" = true := by decide
  have hplural : plural "line__item_person" = "line_itemPeople" := by decide +kernel
  obtain ⟨hnames, hmutation, _, word, hmany, hword, horder⟩ := wireNames_coherent hname
  rw [hplural] at hmany hword
  cases hword
  exact ⟨hname, haction, hnames, hmutation _ haction, hmany, horder⟩

end Naming

end GraphDoc
