import GraphDoc.Hash.Sha256
import GraphDoc.Proofs.Naming.Grammar
import GraphDoc.Text.Encoding
import GraphDoc.Value.Literal

/-!
# GraphDoc.Proofs.Text.Encodable

Which texts have UTF-8 bytes: those without a surrogate on its own.

* Texts put together from texts with bytes have bytes: rows, separated rows,
  and what is written for each code point.
* A literal always has bytes, whatever value it shows (`isEncodable_literal`);
  surrogates do not print, and what does not print is written by its number.
* Changing the case keeps bytes, and names that passed the check have them.
-/

namespace GraphDoc

namespace Text

/-! ## rows of texts -/

/-- A text has bytes exactly if no surrogate is in it. -/
theorem isEncodable_iff {t : Text} :
    t.isEncodable = true ↔ ∀ c ∈ t, c.isSurrogate = false := by
  simp [isEncodable]

@[simp] theorem isSurrogate_char (c : Char) : (CodePoint.char c).isSurrogate = false := rfl

@[simp] theorem isEncodable_nil : isEncodable [] = true := rfl

@[simp] theorem isEncodable_cons (c : CodePoint) (t : Text) :
    isEncodable (c :: t) = (!c.isSurrogate && isEncodable t) := by
  simp [isEncodable]

@[simp] theorem isEncodable_append (s t : Text) :
    isEncodable (s ++ t) = (isEncodable s && isEncodable t) := by
  simp [isEncodable]

@[simp] theorem isEncodable_ofChars (cs : List Char) : (ofChars cs).isEncodable = true := by
  induction cs with
  | nil => rfl
  | cons c rest ih =>
      have hcons : ofChars (c :: rest) = .char c :: ofChars rest := rfl
      rw [hcons, isEncodable_cons, ih]
      rfl

@[simp] theorem isEncodable_ofString (s : String) : (ofString s).isEncodable = true :=
  isEncodable_ofChars s.toList

@[simp] theorem isEncodable_ofNat (n : Nat) : (ofNat n).isEncodable = true :=
  isEncodable_ofChars _

@[simp] theorem isEncodable_ofInt (n : Int) : (ofInt n).isEncodable = true := by
  cases n <;> simp [ofInt]

theorem isEncodable_flatMap {t : Text} {f : CodePoint → Text}
    (h : ∀ c ∈ t, (f c).isEncodable = true) : isEncodable (t.flatMap f) = true := by
  rw [isEncodable_iff]
  intro c hc
  obtain ⟨c', hc', hmem⟩ := List.mem_flatMap.1 hc
  exact isEncodable_iff.1 (h c' hc') c hmem

/-- Texts with a separator between them have bytes if all of them have. -/
theorem isEncodable_separated {separator : Text} {texts : List Text}
    (hs : separator.isEncodable = true) (h : ∀ t ∈ texts, t.isEncodable = true) :
    (separated separator texts).isEncodable = true := by
  induction texts with
  | nil => rfl
  | cons t rest ih =>
      rw [List.forall_mem_cons] at h
      cases rest with
      | nil => simpa [separated, List.intercalate] using h.1
      | cons u others =>
          have hrest := ih h.2
          simp only [separated, List.intercalate_cons_cons, isEncodable_append, h.1, hs,
            Bool.true_and] at hrest ⊢
          exact hrest

/-! ## literals -/

/-- All surrogates lie in one of the ranges of what does not print. -/
theorem printable_of_isSurrogate {c : CodePoint} (h : c.isSurrogate = true) :
    printable c = false := by
  cases c with
  | char c => cases h
  | surrogate offset =>
      have hranges : ∃ r ∈ unprintableRanges, r.1 ≤ 0xD800 ∧ 0xDFFF ≤ r.2 := by decide +kernel
      obtain ⟨r, hmem, hfirst, hlast⟩ := hranges
      have hoffset := offset.isLt
      have hcovered : (unprintableRanges.any fun r =>
          r.1 ≤ (CodePoint.surrogate offset).code && (CodePoint.surrogate offset).code ≤ r.2) =
            true := by
        rw [List.any_eq_true]
        refine ⟨r, hmem, ?_⟩
        rw [CodePoint.code, Bool.and_eq_true, decide_eq_true_eq, decide_eq_true_eq]
        omega
      have hlarge : ¬ (CodePoint.surrogate offset).code < 127 := by
        simp only [CodePoint.code]
        omega
      simp only [printable, hlarge, if_false, hcovered, Bool.not_true]

@[simp] theorem isEncodable_codeEscape (c : CodePoint) : (codeEscape c).isEncodable = true := by
  simp only [codeEscape]
  split
  · simp [hexadecimal]
  · split <;> simp [hexadecimal]

/-- A character has bytes once it is quoted, also a surrogate. -/
theorem isEncodable_quotedPoint {quote : CodePoint} (hq : quote.isSurrogate = false)
    (c : CodePoint) : (quotedPoint quote c).isEncodable = true := by
  have hprinted : printable c = true → c.isSurrogate = false := by
    intro h
    cases hs : c.isSurrogate with
    | false => rfl
    | true =>
        rw [printable_of_isSurrogate hs] at h
        cases h
  unfold quotedPoint
  split
  · next hescaped =>
    have hc : c.isSurrogate = false := by
      rcases hescaped with rfl | rfl
      · exact hq
      · rfl
    simp [hc]
  · split
    · simp
    · split
      · simp
      · split
        · simp
        · split
          · next h => simp [hprinted h]
          · simp

@[simp] theorem isEncodable_quoted (t : Text) : (quoted t).isEncodable = true := by
  have hq : (quoteFor t).isSurrogate = false := by
    unfold quoteFor
    split <;> rfl
  have hbody := isEncodable_flatMap fun c (_ : c ∈ t) => isEncodable_quotedPoint hq c
  simp only [quoted, List.cons_append, isEncodable_cons, isEncodable_append, hq, hbody,
    isEncodable_nil]
  rfl

@[simp] theorem isEncodable_message (g : Gap) : g.message.isEncodable = true := by
  unfold Gap.message
  split <;> simp

end Text

open Text

@[simp] theorem isEncodable_bracketed {literals : List Text}
    (h : ∀ t ∈ literals, t.isEncodable = true) : (bracketed literals).isEncodable = true := by
  have hrow := isEncodable_separated (isEncodable_ofString ", ") h
  simp [bracketed, hrow]

@[simp] theorem isEncodable_textsLiteral (ts : List Text) :
    (textsLiteral ts).isEncodable = true := by
  refine isEncodable_bracketed fun t ht => ?_
  obtain ⟨u, _, hu⟩ := List.mem_map.1 ht
  rw [← hu]
  exact isEncodable_quoted u

@[simp] theorem Binary64.isEncodable_literal (x : Binary64) : x.literal.isEncodable = true := by
  cases x with
  | finite negative mantissa exponent => exact isEncodable_ofChars _
  | infinite negative => cases negative <;> simp [Binary64.literal, Binary64.text]
  | nan => exact isEncodable_ofString "nan"

namespace Value

mutual
/-- Every value has a literal with bytes. -/
@[simp] theorem isEncodable_literal : (v : Value) → v.literal.isEncodable = true
  | .null => isEncodable_ofString _
  | .missing => isEncodable_ofString _
  | .bool b => by cases b <;> simp [literal]
  | .int n => isEncodable_ofInt n
  | .float x => x.isEncodable_literal
  | .str t => isEncodable_quoted t
  | .arr items => by
      rw [literal]
      exact isEncodable_bracketed (isEncodable_itemLiterals items)
  | .obj members => by
      have hrow := isEncodable_separated (isEncodable_ofString ", ")
        (isEncodable_memberLiterals members)
      simp [literal, hrow]

theorem isEncodable_itemLiterals :
    (items : List Value) → ∀ t ∈ itemLiterals items, t.isEncodable = true
  | [] => fun _ ht => absurd ht List.not_mem_nil
  | v :: rest => by
      rw [itemLiterals, List.forall_mem_cons]
      exact ⟨isEncodable_literal v, isEncodable_itemLiterals rest⟩

theorem isEncodable_memberLiterals :
    (ms : List (Text × Value)) → ∀ t ∈ memberLiterals ms, t.isEncodable = true
  | [] => fun _ ht => absurd ht List.not_mem_nil
  | (k, v) :: rest => by
      rw [memberLiterals, List.forall_mem_cons]
      exact ⟨by simp [isEncodable_literal v], isEncodable_memberLiterals rest⟩
end

end Value

/-! ## case and names -/

namespace Text

theorem isEncodable_upperPoint {c : CodePoint} (h : c.isSurrogate = false) :
    (upperPoint c).isEncodable = true := by
  cases c with
  | char c => exact isEncodable_ofChars _
  | surrogate offset => cases h

theorem isEncodable_lowerPoint {c : CodePoint} (h : c.isSurrogate = false) :
    (lowerPoint c).isEncodable = true := by
  cases c with
  | char c => exact isEncodable_ofChars _
  | surrogate offset => cases h

theorem isEncodable_upper {t : Text} (h : t.isEncodable = true) : (upper t).isEncodable = true :=
  isEncodable_flatMap fun c hc => isEncodable_upperPoint (isEncodable_iff.1 h c hc)

end Text

namespace Naming

theorem isEncodable_camelTail {t : Text} (h : t.isEncodable = true) :
    (camelTail t).isEncodable = true := by
  fun_induction camelTail t with
  | case1 => rfl
  | case2 c => exact h
  | case3 rest ih =>
      rw [isEncodable_cons, Bool.and_eq_true] at h ⊢
      exact ⟨rfl, ih h.2⟩
  | case4 c rest hc ih =>
      simp only [isEncodable_cons, Bool.and_eq_true, Bool.not_eq_true'] at h
      rw [isEncodable_append, isEncodable_upperPoint h.2.1, ih h.2.2]
      rfl
  | case5 c rest _ _ ih =>
      rw [isEncodable_cons, Bool.and_eq_true] at h ⊢
      exact ⟨h.1, ih h.2⟩

theorem isEncodable_camel {t : Text} (h : t.isEncodable = true) :
    (camel t).isEncodable = true := by
  cases t with
  | nil => rfl
  | cons c rest =>
      rw [isEncodable_cons, Bool.and_eq_true, Bool.not_eq_true'] at h
      have htail := isEncodable_camelTail h.2
      simp only [camel]
      split
      · simp [h.1, htail]
      · simp [isEncodable_upperPoint h.1, htail]

theorem isEncodable_singular {t : Text} (h : t.isEncodable = true) :
    (singular t).isEncodable = true := by
  cases t with
  | nil => rfl
  | cons c rest =>
      have hcamel := isEncodable_iff.1 (isEncodable_camel h)
      have htail : isEncodable (camel (c :: rest)).tail = true :=
        isEncodable_iff.2 fun d hd => hcamel d (List.mem_of_mem_tail hd)
      rw [isEncodable_cons, Bool.and_eq_true, Bool.not_eq_true'] at h
      simp [singular, camelLower, isEncodable_lowerPoint h.1, htail]

theorem isEncodable_snake {t : Text} (h : t.isEncodable = true) :
    (snake t).isEncodable = true := by
  fun_induction snake t with
  | case1 a b rest hb ih =>
      rw [isEncodable_cons, Bool.and_eq_true] at h
      rw [isEncodable_cons, isEncodable_cons, isSurrogate_char, h.1, ih h.2]
      rfl
  | case2 a b rest hb ih =>
      rw [isEncodable_cons, Bool.and_eq_true] at h ⊢
      exact ⟨h.1, ih h.2⟩
  | case3 t => exact h

/-- The word for an order has bytes if its field and its direction have. -/
theorem isEncodable_orderWord {field direction : Text} (hf : field.isEncodable = true)
    (hd : direction.isEncodable = true) : (orderWord field direction).isEncodable = true := by
  simp [orderWord, isEncodable_upper (isEncodable_snake hf), isEncodable_upper hd]

end Naming

/-- A code point of a name is a character. -/
theorem Name.not_isSurrogate_of_isPart {c : CodePoint} (h : Name.isPart c = true) :
    c.isSurrogate = false := by
  cases c with
  | char c => rfl
  | surrogate offset => cases h

theorem Name.isEncodable_of_valid {t : Text} (h : Name.valid t = true) : t.isEncodable = true :=
  isEncodable_iff.2 fun c hc =>
    not_isSurrogate_of_isPart (List.all_eq_true.1 (all_isPart_of_valid h) c hc)

/-- An accepted name has bytes. -/
theorem Name.isEncodable_of_accepted {t : Text} (h : Name.accepted t = true) :
    t.isEncodable = true := by
  by_cases hb : EndsInBreak t
  · obtain ⟨s, hs, ht⟩ := exists_of_endsInBreak h hb
    rw [ht, isEncodable_append, isEncodable_of_valid hs]
    rfl
  · exact isEncodable_of_valid ((valid_iff_of_accepted h).2 hb)

/-! ## bytes -/

/-- A text has no gap exactly if it has bytes. -/
theorem Text.gap?_eq_none_iff {t : Text} {here : Nat} :
    t.gap? (fun _ => false) here = none ↔ t.isEncodable = true := by
  induction t generalizing here with
  | nil => simp [gap?]
  | cons c rest ih =>
      by_cases hc : c.isSurrogate = true
      · simp [gap?, hc]
      · simp [gap?, hc, ih]

/-- A text that bytes were found for. -/
theorem Text.isEncodable_of_utf8 {t : Text} {bytes : List UInt8} (h : t.utf8 = .ok bytes) :
    t.isEncodable = true := by
  unfold utf8 at h
  cases hgap : t.gap? (fun _ => false) 0 with
  | some gap => simp [hgap] at h
  | none => exact gap?_eq_none_iff.1 hgap

/-- Reading bytes from a place adds those behind it. -/
theorem toList_loop_eq (bytes : ByteArray) (i : Nat) (read : List UInt8) :
    ByteArray.toList.loop bytes i read = read.reverse ++ bytes.data.toList.drop i := by
  fun_induction ByteArray.toList.loop bytes i read with
  | case1 i read hi ih =>
      have hbound : i < bytes.data.toList.length := by simpa using hi
      rw [ih, List.drop_eq_getElem_cons hbound]
      simp [ByteArray.get!, getElem!_pos bytes.data i hi]
  | case2 i read hi =>
      have hbound : bytes.data.toList.length ≤ i := by simpa using hi
      rw [List.drop_of_length_le hbound, List.append_nil]

/-- The bytes of a string are those of its characters. -/
theorem toList_toUTF8 (cs : List Char) :
    (String.ofList cs).toUTF8.toList = cs.flatMap String.utf8EncodeChar := by
  rw [String.toUTF8_eq_toByteArray, String.toByteArray_ofList, ByteArray.toList, toList_loop_eq]
  simp [List.utf8Encode]

theorem Sha256.isEncodable_digest (message : List UInt8) :
    (Sha256.digest message).isEncodable = true := isEncodable_ofChars _

end GraphDoc
