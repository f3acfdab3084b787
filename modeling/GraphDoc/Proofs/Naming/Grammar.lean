import GraphDoc.Name
import GraphDoc.Naming.Wire

/-!
# GraphDoc.Proofs.Naming.Grammar

The grammar of names through the derivation of names.

* Camel case (`IsCamel.valid`), plurals, which are forms of the word
  (`formOf_pluralize`), and the wire names of a table are names if the name of the
  table is one.
* A name that passed its check is one up to a line feed at its end
  (`valid_iff_of_accepted`), and each derivation lets the line feed through
  (`IsCamel.endsInBreak`, `mem_break_pluralize`).
-/

namespace GraphDoc

namespace Name

/-! ## names and their parts -/

def EndsInBreak (t : Text) : Prop := t.getLast? = some (.char '\n')

instance (t : Text) : Decidable (EndsInBreak t) :=
  inferInstanceAs (Decidable (t.getLast? = some (.char '\n')))

/-- The check lets a line feed at the end pass, and nothing else that is no
name. -/
theorem valid_iff_of_accepted {t : Text} (h : accepted t = true) :
    valid t = true ↔ ¬ EndsInBreak t := by
  by_cases hb : EndsInBreak t
  · have hmem : .char '\n' ∈ t := List.mem_of_getLast? hb
    simp [hb, not_valid_of_mem_break hmem]
  · have hw : withoutFinalBreak t = t := if_neg hb
    rw [accepted, hw] at h
    simp [h, hb]

/-- A valid name does not end in a line break. -/
theorem not_endsInBreak_of_valid {t : Text} (h : valid t = true) : ¬ EndsInBreak t := by
  intro hb
  rw [not_valid_of_mem_break (List.mem_of_getLast? hb)] at h
  cases h

/-- A name passes the check. -/
theorem accepted_of_valid {t : Text} (h : valid t = true) : accepted t = true := by
  have hw : withoutFinalBreak t = t := if_neg (not_endsInBreak_of_valid h)
  rw [accepted, hw, h]

/-- A valid name holds nothing but characters of names. -/
theorem all_isPart_of_valid {t : Text} (h : valid t = true) : t.all isPart = true := by
  obtain ⟨c, rest, ht, hc, hrest⟩ := valid_iff.1 h
  rw [ht, List.all_cons, isPart_of_isStart hc, hrest, Bool.and_self]

/-- A valid name is not empty. -/
theorem ne_nil_of_valid {t : Text} (h : valid t = true) : t ≠ [] := by
  obtain ⟨c, rest, ht, _⟩ := valid_iff.1 h
  exact ht ▸ List.cons_ne_nil c rest

/-- A name goes on with the characters of names. -/
theorem valid_append {s t : Text} (hs : valid s = true) (ht : t.all isPart = true) :
    valid (s ++ t) = true := by
  obtain ⟨c, rest, he, hc, hrest⟩ := valid_iff.1 hs
  refine valid_iff.2 ⟨c, rest ++ t, by rw [he, List.cons_append], hc, ?_⟩
  rw [List.all_append, hrest, ht, Bool.and_self]

/-- Each beginning of a name is a name. -/
theorem valid_take {t : Text} (h : valid t = true) {n : Nat} (hn : n ≠ 0) :
    valid (t.take n) = true := by
  obtain ⟨c, rest, ht, hc, hrest⟩ := valid_iff.1 h
  obtain ⟨k, rfl⟩ := Nat.exists_eq_succ_of_ne_zero hn
  refine valid_iff.2 ⟨c, rest.take k, by rw [ht, List.take_succ_cons], hc, ?_⟩
  rw [List.all_eq_true] at hrest ⊢
  exact fun d hd => hrest d (List.mem_of_mem_take hd)

/-- A name that passed its check and ends in a line feed is a name before it. -/
theorem exists_of_endsInBreak {t : Text} (h : accepted t = true) (hb : EndsInBreak t) :
    ∃ s, valid s = true ∧ t = s ++ [.char '\n'] := by
  obtain ⟨s, hs⟩ := List.getLast?_eq_some_iff.1 hb
  have hw : withoutFinalBreak t = t.dropLast := if_pos hb
  rw [accepted, hw, hs, List.dropLast_concat] at h
  exact ⟨s, h, hs⟩

/-! ## the case of a character of a name -/

/-- The characters of names are the underscore, letters and digits of ASCII. -/
theorem isPart_char {c : Char} : isPart (.char c) = true ↔ c = '_' ∨ c.isAlphanum = true := by
  simp [isPart]

/-- The characters of names are ASCII. -/
theorem toNat_lt_of_isPart {c : Char} (h : isPart (.char c) = true) : c.toNat < 128 := by
  rcases isPart_char.1 h with rfl | h
  · decide
  · -- the classes of characters as they are defined, upper and lower case and digits
    have hranges : ((decide ('A'.val ≤ c.val ∧ c.val ≤ 'Z'.val) ||
        decide ('a'.val ≤ c.val) && decide (c.val ≤ 'z'.val)) ||
        decide ('0'.val ≤ c.val) && decide (c.val ≤ '9'.val)) = true := h
    simp only [Bool.or_eq_true, Bool.and_eq_true, decide_eq_true_eq,
      UInt32.le_iff_toNat_le] at hranges
    have hupper : 'Z'.val.toNat = 90 := rfl
    have hlower : 'z'.val.toNat = 122 := rfl
    have hdigit : '9'.val.toNat = 57 := rfl
    have hval : c.toNat = c.val.toNat := rfl
    omega

/-- A change of case that leads from the characters of names to characters of
names, one for each. -/
def KeepsNames (g : CodePoint → Text) : Prop :=
  ∀ c, isPart c = true → ∃ d, g c = [d] ∧ isPart d = true ∧ (isStart c = true → isStart d = true)

/-- Whether a change of case does so at a character. -/
def keepsNameAt (g : CodePoint → Text) (c : CodePoint) : Bool :=
  match g c with
  | [d] => isPart d && (!isStart c || isStart d)
  | _ => false

/-- The characters of names are few enough to look at each of them. -/
theorem keepsNames_of_ascii {g : CodePoint → Text}
    (h : ∀ n < 128, isPart (Char.ofNat n) = true → keepsNameAt g (Char.ofNat n) = true) :
    KeepsNames g := by
  intro c hc
  cases c with
  | surrogate offset => simp [isPart] at hc
  | char c =>
      have hlt : c.toNat < 128 := toNat_lt_of_isPart hc
      rw [← Char.ofNat_toNat c] at hc ⊢
      have hat := h c.toNat hlt hc
      unfold keepsNameAt at hat
      split at hat
      · rename_i d hd
        rw [Bool.and_eq_true] at hat
        refine ⟨d, hd, hat.1, fun hs => ?_⟩
        simpa only [hs, Bool.not_true, Bool.false_or] using hat.2
      · cases hat

/-- A character of a name has an upper case that is one. -/
theorem upperPoint_keepsNames : KeepsNames Text.upperPoint := keepsNames_of_ascii (by decide)

/-- A character of a name has a lower case that is one. -/
theorem lowerPoint_keepsNames : KeepsNames Text.lowerPoint := keepsNames_of_ascii (by decide)

end Name

namespace Naming

open Name

/-! ## camel case -/

/-- Camel case keeps the characters of names. -/
theorem all_isPart_camelTail {t : Text} (h : t.all isPart = true) :
    (camelTail t).all isPart = true := by
  induction t using camelTail.induct with
  | case1 => rfl
  | case2 c => exact h
  | case3 rest ih =>
      rw [List.all_cons, Bool.and_eq_true] at h
      rw [camelTail, if_pos rfl, List.all_cons, h.1, ih h.2, Bool.and_self]
  | case4 c rest hc ih =>
      simp only [List.all_cons, Bool.and_eq_true] at h
      obtain ⟨d, hd, hpart, _⟩ := upperPoint_keepsNames c h.2.1
      rw [camelTail, if_neg hc, hd, List.singleton_append, List.all_cons, hpart, ih h.2.2,
        Bool.and_self]
  | case5 c rest hne hword ih =>
      rw [List.all_cons, Bool.and_eq_true] at h
      rw [camelTail.eq_4 c rest hne hword, List.all_cons, h.1, ih h.2, Bool.and_self]

/-- A line feed at the end stays there. -/
theorem camelTail_break (t : Text) :
    camelTail (t ++ [.char '\n']) = camelTail t ++ [.char '\n'] := by
  induction t using camelTail.induct with
  | case1 => rfl
  | case2 c =>
      by_cases hc : c = .char '_'
      · subst hc
        rfl
      · exact camelTail.eq_4 c _ (by simp) fun _ _ hword _ => hc hword
  | case3 rest ih =>
      rw [List.cons_append, List.cons_append, camelTail, if_pos rfl, camelTail, if_pos rfl,
        ← List.cons_append, ih, List.cons_append]
  | case4 c rest hc ih =>
      rw [List.cons_append, List.cons_append, camelTail, if_neg hc, camelTail, if_neg hc, ih,
        List.append_assoc]
  | case5 c rest hne hword ih =>
      have hc : c ≠ .char '_' := by
        intro hc
        cases rest with
        | nil => exact hne rfl
        | cons d others => exact hword d others hc rfl
      have hcons : camelTail (c :: (rest ++ [.char '\n'])) =
          c :: camelTail (rest ++ [.char '\n']) :=
        camelTail.eq_4 c _ (by simp) fun _ _ h _ => hc h
      rw [List.cons_append, hcons, camelTail.eq_4 c rest hne hword, ih, List.cons_append]

/-- A form of camel case: one character for the first one, and the rest in
camel case. -/
def IsCamel (form : Text → Text) : Prop :=
  ∀ c, isStart c = true → ∃ d, isStart d = true ∧ ∀ rest, form (c :: rest) = d :: camelTail rest

/-- The camel case of a name starts with the capital of its first character. -/
theorem camel_cons {c : CodePoint} (h : isStart c = true) (rest : Text) :
    camel (c :: rest) = Text.upperPoint c ++ camelTail rest := by
  have hc : c ≠ .char '\n' := fun hc => by simp [hc, isStart] at h
  rw [camel, if_neg hc]

/-- With the lower-case first character it goes on in the same way. -/
theorem camelLower_cons {c : CodePoint} (h : isStart c = true) (rest : Text) :
    camelLower (c :: rest) = Text.lowerPoint c ++ camelTail rest := by
  obtain ⟨u, hu, _, _⟩ := upperPoint_keepsNames c (isPart_of_isStart h)
  rw [camelLower, camel_cons h, hu, List.singleton_append, List.tail_cons]

/-- Upper camel case is a camel case. -/
theorem isCamel_camel : IsCamel camel := by
  intro c h
  obtain ⟨d, hd, _, hstart⟩ := upperPoint_keepsNames c (isPart_of_isStart h)
  refine ⟨d, hstart h, fun rest => ?_⟩
  rw [camel_cons h, hd, List.singleton_append]

/-- Lower camel case is a camel case. -/
theorem isCamel_camelLower : IsCamel camelLower := by
  intro c h
  obtain ⟨d, hd, _, hstart⟩ := lowerPoint_keepsNames c (isPart_of_isStart h)
  refine ⟨d, hstart h, fun rest => ?_⟩
  rw [camelLower_cons h, hd, List.singleton_append]

variable {form : Text → Text}

/-- A name in camel case is a name. -/
theorem IsCamel.valid (hform : IsCamel form) {t : Text} (h : valid t = true) :
    valid (form t) = true := by
  obtain ⟨c, rest, ht, hc, hrest⟩ := valid_iff.1 h
  obtain ⟨d, hd, hcamel⟩ := hform c hc
  rw [ht, hcamel]
  exact valid_iff.2 ⟨d, _, rfl, hd, all_isPart_camelTail hrest⟩

/-- A line feed behind a name stays behind its camel case. -/
theorem IsCamel.append_break (hform : IsCamel form) {t : Text} (h : Name.valid t = true) :
    form (t ++ [.char '\n']) = form t ++ [.char '\n'] := by
  obtain ⟨c, rest, ht, hc, _⟩ := valid_iff.1 h
  obtain ⟨d, _, hcamel⟩ := hform c hc
  rw [ht, List.cons_append, hcamel, hcamel, camelTail_break, List.cons_append]

/-! ## plurals -/

/-- What a rule adds to a name makes a name again, also where the rule drops
all letters of the name. -/
def Rule.isSound (r : Rule) : Bool :=
  r.added.all isPart && (r.dropped.all List.isEmpty || Name.valid r.added)

/-- Every rule of inflection is sound. -/
theorem isSound_of_mem_rules {r : Rule} (h : r ∈ rules) : r.isSound = true := by
  have hall : rules.all Rule.isSound = true := by decide
  exact List.all_eq_true.1 hall r h

/-- What stands before an end that fits a pattern is the beginning of the
text. -/
theorem eq_take_of_splitEnd? {w : List Letter} {t stem : Text}
    (h : splitEnd? [w] t = some stem) : stem = t.take (t.length - w.length) := by
  have hfit : (w.length ≤ t.length ∧ fitsAll w (t.drop (t.length - w.length)) = true) ∧
      t.take (t.length - w.length) = stem := by simpa [splitEnd?] using h
  exact hfit.2.symm

/-- A rule that fits keeps the beginning of the word and adds its ending. -/
theorem Rule.eq_of_inflect? {r : Rule} {t out : Text} (h : r.inflect? t = some out) :
    ∃ w ∈ r.dropped, out = t.take (t.length - w.length) ++ r.added := by
  obtain ⟨w, hw, hfit⟩ := List.exists_of_findSome?_eq_some h
  cases hstem : splitEnd? [w] t with
  | none => simp [hstem] at hfit
  | some stem =>
      refine ⟨w, hw, ?_⟩
      cases hkept : splitEnd? r.kept stem with
      | none => simp [hstem, hkept] at hfit
      | some before =>
          by_cases hwhole : (r.whole && !before.isEmpty) = true
          · simp [hstem, hkept, hwhole] at hfit
          · simp only [hstem, hkept, hwhole, Bool.false_eq_true, if_false,
              Option.some.injEq] at hfit
            rw [← hfit, eq_take_of_splitEnd? hstem]

/-- A form of a word: a beginning of the word with an ending that a name may have, or
another word that is a name. -/
inductive FormOf (t : Text) : Text → Prop where
  | ending {n : Nat} {added : Text} (kept : n ≠ 0) (fits : added.all isPart = true) :
    FormOf t (t.take n ++ added)
  | word {out : Text} (named : Name.valid out = true) : FormOf t out

/-- A form of a valid name is valid. -/
theorem FormOf.valid {t out : Text} (h : FormOf t out) (ht : Name.valid t = true) :
    Name.valid out = true := by
  cases h with
  | ending kept fits => exact valid_append (valid_take ht kept) fits
  | word named => exact named

/-- A form of a text that is not empty is not empty. -/
theorem FormOf.ne_nil {t out : Text} (h : FormOf t out) (ht : t ≠ []) : out ≠ [] := by
  cases h with
  | ending kept _ =>
      refine List.append_ne_nil_of_left_ne_nil (fun htake => ?_) _
      exact (List.take_eq_nil_iff.1 htake).elim kept ht
  | word named => exact ne_nil_of_valid named

/-- A word and an ending are a form of the word. -/
theorem formOf_append {t added : Text} (ht : t ≠ []) (fits : added.all isPart = true) :
    FormOf t (t ++ added) := by
  have hform : FormOf t (t.take t.length ++ added) :=
    .ending (mt List.length_eq_zero_iff.1 ht) fits
  rwa [List.take_length] at hform

/-- A rule makes a form of a word. -/
theorem Rule.formOf_of_inflect? {r : Rule} {t out : Text} (hr : r ∈ rules) (ht : t ≠ [])
    (h : r.inflect? t = some out) : FormOf t out := by
  obtain ⟨w, hw, rfl⟩ := Rule.eq_of_inflect? h
  have hsound := isSound_of_mem_rules hr
  rw [Rule.isSound, Bool.and_eq_true, Bool.or_eq_true] at hsound
  by_cases hn : t.length - w.length = 0
  · rw [hn, List.take_zero, List.nil_append]
    refine .word (hsound.2.resolve_left fun hempty => ht ?_)
    have hwnil : w = [] := List.isEmpty_iff.1 (List.all_eq_true.1 hempty w hw)
    rw [hwnil, List.length_nil, Nat.sub_zero] at hn
    exact List.length_eq_zero_iff.1 hn
  · exact .ending hn hsound.1

/-- The plural of a word is a form of it. -/
theorem formOf_pluralWord {t : Text} (ht : t ≠ []) : FormOf t (pluralWord t) := by
  unfold pluralWord
  cases hfound : rules.findSome? (·.inflect? t) with
  | none => exact formOf_append ht (by decide)
  | some out =>
      obtain ⟨r, hr, hout⟩ := List.exists_of_findSome?_eq_some hfound
      exact Rule.formOf_of_inflect? hr ht hout

/-- The plural of a word is a form of it. -/
theorem formOf_pluralize {t : Text} (ht : t ≠ []) (hb : ¬ EndsInBreak t) :
    FormOf t (pluralize t) := by
  have hbreak : t.getLast? ≠ some (.char '\n') := hb
  rw [pluralize, if_neg hbreak]
  split
  · have hform : FormOf t (t ++ []) := formOf_append ht rfl
    rwa [List.append_nil] at hform
  · exact formOf_pluralWord ht

/-- The plural of a name is a name. -/
theorem valid_pluralize {t : Text} (h : Name.valid t = true) :
    Name.valid (pluralize t) = true :=
  (formOf_pluralize (ne_nil_of_valid h) (not_endsInBreak_of_valid h)).valid h

/-- A line feed at the end never goes away in the plural. -/
theorem mem_break_pluralize {t : Text} (h : EndsInBreak t) : .char '\n' ∈ pluralize t := by
  have hbreak : t.getLast? = some (.char '\n') := h
  rw [pluralize, if_pos hbreak]
  split
  · exact List.mem_of_getLast? hbreak
  · split
    · exact List.mem_append_right _ (by decide)
    · exact List.mem_append_right _ (by decide)

/-! ## the names of a table -/

/-- The singular of a valid name is valid. -/
theorem valid_singular {t : Text} (h : Name.valid t = true) : Name.valid (singular t) = true :=
  isCamel_camelLower.valid h

/-- The plural of a valid name is valid. -/
theorem valid_plural {t : Text} (h : Name.valid t = true) : Name.valid (plural t) = true :=
  valid_pluralize (valid_singular h)

/-- The type of a table with a valid name has a valid name. -/
theorem valid_typeName {t : Text} (h : Name.valid t = true) : Name.valid (typeName t) = true :=
  isCamel_camel.valid h

/-- The type of the orders of such a table has a valid name. -/
theorem valid_orderByType {t : Text} (h : Name.valid t = true) :
    Name.valid (orderByType t) = true := by
  obtain ⟨c, rest, hplural, hc, hrest⟩ := valid_iff.1 (valid_plural h)
  obtain ⟨d, hd, _, hstart⟩ := upperPoint_keepsNames c (isPart_of_isStart hc)
  have hword : Name.valid (d :: rest) = true := valid_iff.2 ⟨d, rest, rfl, hstart hc, hrest⟩
  rw [orderByType, hplural]
  simp only [hd, List.singleton_append]
  exact valid_append hword (by decide)

/-- A name around the type of a table. -/
theorem valid_around_typeName {before after t : Text} (hbefore : Name.valid before = true)
    (hafter : after.all isPart = true) (h : Name.valid t = true) :
    Name.valid (before ++ typeName t ++ after) = true :=
  valid_append (valid_append hbefore (all_isPart_of_valid (valid_typeName h))) hafter

/-- The type of its filters has a valid name. -/
theorem valid_filterType {t : Text} (h : Name.valid t = true) :
    Name.valid (filterType t) = true :=
  valid_append (valid_typeName h) (by decide)

/-- The input of a creation has a valid name. -/
theorem valid_createInputType {t : Text} (h : Name.valid t = true) :
    Name.valid (createInputType t) = true :=
  valid_around_typeName (by decide) (by decide) h

/-- The input of an update has a valid name. -/
theorem valid_updateInputType {t : Text} (h : Name.valid t = true) :
    Name.valid (updateInputType t) = true :=
  valid_around_typeName (by decide) (by decide) h

/-- The input of a deletion has a valid name. -/
theorem valid_deleteInputType {t : Text} (h : Name.valid t = true) :
    Name.valid (deleteInputType t) = true :=
  valid_around_typeName (by decide) (by decide) h

/-- The type of its patches has a valid name. -/
theorem valid_patchType {t : Text} (h : Name.valid t = true) :
    Name.valid (patchType t) = true :=
  valid_append (valid_typeName h) (by decide)

/-- The field of a mutation has a valid name if its action and its table have. -/
theorem valid_mutationField {action t : Text} (ha : Name.valid action = true)
    (h : Name.valid t = true) : Name.valid (mutationField action t) = true :=
  valid_append ha (all_isPart_of_valid (valid_typeName h))

/-! ## a line feed at the end of a table's name -/

theorem endsInBreak_append_break (t : Text) : EndsInBreak (t ++ [.char '\n']) :=
  List.getLast?_concat

/-- Camel case lets a line feed at the end through. -/
theorem IsCamel.endsInBreak (hform : IsCamel form) {t : Text} (h : accepted t = true)
    (hb : EndsInBreak t) : EndsInBreak (form t) := by
  obtain ⟨s, hs, ht⟩ := exists_of_endsInBreak h hb
  rw [ht, hform.append_break hs]
  exact endsInBreak_append_break (form s)

/-- A line break at the end of a name gets into its singular. -/
theorem mem_break_singular {t : Text} (h : accepted t = true) (hb : EndsInBreak t) :
    .char '\n' ∈ singular t :=
  List.mem_of_getLast? (isCamel_camelLower.endsInBreak h hb)

/-- A line break at the end of a name gets into its plural. -/
theorem mem_break_plural {t : Text} (h : accepted t = true) (hb : EndsInBreak t) :
    .char '\n' ∈ plural t :=
  mem_break_pluralize (isCamel_camelLower.endsInBreak h hb)

/-- A line break at the end of a name gets into the name of its type. -/
theorem mem_break_typeName {t : Text} (h : accepted t = true) (hb : EndsInBreak t) :
    .char '\n' ∈ typeName t :=
  List.mem_of_getLast? (isCamel_camel.endsInBreak h hb)

end Naming

end GraphDoc
