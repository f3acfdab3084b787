import GraphDoc.Assoc
import GraphDoc.Text.Case

/-!
# GraphDoc.Proofs.Text.Case

Every code point has a lower case (`Text.lowerPoint_ne_nil`), and the upper case of a text
whose lower case is known.

Beyond ASCII there are capitals whose lower case starts in ASCII: the Kelvin sign goes to
`k`, and the capital with a dot to an `i` and the dot.  Every other small letter comes
from itself and its ASCII capital only (`CodePoint.IsSole`), so the upper case of a text
can be read off a lower case of such letters (`Text.upper_lower`).
-/

namespace GraphDoc

/-! ## letters -/

/-- A small ASCII letter that only it and its ASCII capital have for a lower case. -/
def CodePoint.IsSole (p : CodePoint) : Prop :=
  p.satisfies (fun c => c.isLower && c != 'i' && c != 'k') = true

instance (p : CodePoint) : Decidable p.IsSole := inferInstanceAs (Decidable (_ = true))

theorem CodePoint.isSole_char {c : Char} :
    (char c).IsSole ↔ c.isLower = true ∧ c ≠ 'i' ∧ c ≠ 'k' := by
  simp [IsSole, and_assoc]

namespace Text

theorem toNat_of_isLower {c : Char} (h : c.isLower = true) : 0 < c.toNat ∧ c.toNat < 128 := by
  have hrange : (decide ('a'.val ≤ c.val) && decide (c.val ≤ 'z'.val)) = true := h
  simp only [Bool.and_eq_true, decide_eq_true_eq, UInt32.le_iff_toNat_le] at hrange
  have hfirst : 'a'.val.toNat = 97 := rfl
  have hlast : 'z'.val.toNat = 122 := rfl
  have hval : c.toNat = c.val.toNat := rfl
  omega

/-- A run of capitals beyond ASCII has its lower case beyond ASCII too, unless it is the
Kelvin sign. -/
theorem CaseRun.shifted_of_mem {r : CaseRun} (h : r ∈ lowerRuns) :
    128 ≤ r.first + r.shift ∨ r.first = r.last ∧ r.first + r.shift = 'k'.toNat :=
  (by decide +kernel : ∀ r ∈ lowerRuns, 128 ≤ (r.first : Int) + r.shift ∨
    r.first = r.last ∧ (r.first : Int) + r.shift = 'k'.toNat) r h

theorem CaseRun.le_of_covers {r : CaseRun} {code : Nat} (h : r.covers code = true) :
    r.first ≤ code ∧ code ≤ r.last := by
  simp only [covers, Bool.and_eq_true, decide_eq_true_eq] at h
  exact h.1

/-- So a lower case from beyond ASCII leads beyond ASCII or to the letter `k`. -/
theorem exists_mem_counterpart {code : Nat} (h : 128 ≤ code) :
    ∃ n ∈ counterpart lowerRuns lowerExpansions code, 128 ≤ n ∨ n = 'k'.toNat := by
  unfold counterpart
  split
  · rename_i codes hcodes
    -- the one expansion is that of the capital with a dot, and the dot is beyond ASCII
    obtain ⟨-, rfl⟩ := Prod.mk.inj (List.mem_singleton.1 (Assoc.mem_of_lookup hcodes))
    exact ⟨0x307, by decide, .inl (by decide)⟩
  · split
    · rename_i r hr
      have hcovers : r.first ≤ code ∧ code ≤ r.last :=
        CaseRun.le_of_covers (by simpa using List.find?_some hr)
      refine ⟨_, List.mem_singleton_self _, ?_⟩
      rcases CaseRun.shifted_of_mem (List.mem_of_find?_eq_some hr) with hshift | ⟨hone, hkelvin⟩
      · exact .inl (by omega)
      · exact .inr (by omega)
    · exact ⟨code, List.mem_singleton_self _, .inl h⟩

theorem not_isSole_ofNat {n : Nat} (h : 128 ≤ n) : ¬ (CodePoint.char (Char.ofNat n)).IsSole := by
  intro hsole
  have hascii := toNat_of_isLower (CodePoint.isSole_char.1 hsole).1
  by_cases hvalid : n.isValidChar
  · have hcode : (Char.ofNat n).toNat = n := congrArg Char.toNat (dif_pos hvalid)
    omega
  · have hnone : Char.ofNat n = Char.ofNat 0 := dif_neg hvalid
    rw [hnone] at hascii
    exact absurd hascii.1 (by decide)

/-- No character beyond ASCII has a lower case of sole letters. -/
theorem exists_mem_lowerChar {c : Char} (h : 128 ≤ c.toNat) :
    ∃ d ∈ lowerChar c, ¬ (CodePoint.char d).IsSole := by
  have hlower : lowerChar c = (counterpart lowerRuns lowerExpansions c.toNat).map Char.ofNat :=
    if_neg (Nat.not_lt.2 h)
  obtain ⟨n, hn, hbeyond | rfl⟩ := exists_mem_counterpart h
  · exact ⟨Char.ofNat n, hlower ▸ List.mem_map_of_mem hn, not_isSole_ofNat hbeyond⟩
  · exact ⟨Char.ofNat 'k'.toNat, hlower ▸ List.mem_map_of_mem hn, by decide⟩

theorem counterpart_ne_nil {runs : List CaseRun} {expansions : List (Nat × List Nat)}
    (h : ∀ e ∈ expansions, e.2 ≠ []) (code : Nat) : counterpart runs expansions code ≠ [] := by
  unfold counterpart
  split
  · rename_i codes hcodes
    exact h (code, codes) (Assoc.mem_of_lookup hcodes)
  · split
    · exact List.cons_ne_nil _ _
    · exact List.cons_ne_nil _ _

/-- A character has a lower case. -/
theorem lowerChar_ne_nil (c : Char) : lowerChar c ≠ [] := by
  have hexpansions : ∀ e ∈ lowerExpansions, e.2 ≠ [] := by decide
  unfold lowerChar
  split
  · exact List.cons_ne_nil _ _
  · exact mt List.map_eq_nil_iff.1 (counterpart_ne_nil hexpansions c.toNat)

theorem lowerPoint_ne_nil (c : CodePoint) : lowerPoint c ≠ [] := by
  cases c with
  | surrogate offset => exact List.cons_ne_nil _ _
  | char c => exact mt List.map_eq_nil_iff.1 (lowerChar_ne_nil c)

/-! ## texts -/

theorem upper_append (s t : Text) : upper (s ++ t) = upper s ++ upper t := List.flatMap_append

/-- An ASCII character keeps its capital when it goes to lower case. -/
theorem upper_lowerPoint_of_ascii {c : Char} (h : c.toNat < 128) :
    upper (lowerPoint (.char c)) = upperPoint (.char c) := by
  have hascii : ∀ n < 128,
      upper (lowerPoint (.char (Char.ofNat n))) = upperPoint (.char (Char.ofNat n)) := by
    decide
  rw [← Char.ofNat_toNat c]
  exact hascii c.toNat h

/-- A lower case of sole letters has the upper case of its character. -/
theorem upper_lowerPoint {p : CodePoint} (h : ∀ q ∈ lowerPoint p, q.IsSole) :
    upper (lowerPoint p) = upperPoint p := by
  cases p with
  | surrogate offset => exact absurd (h _ (List.mem_singleton_self _)) Bool.false_ne_true
  | char c =>
      by_cases hascii : c.toNat < 128
      · exact upper_lowerPoint_of_ascii hascii
      · obtain ⟨d, hd, hsole⟩ := exists_mem_lowerChar (Nat.not_lt.1 hascii)
        exact absurd (h (.char d) (List.mem_map_of_mem hd)) hsole

/-- A text whose lower case has sole letters only has the upper case of that. -/
theorem upper_lower {t : Text} (h : ∀ q ∈ lower t, q.IsSole) : upper (lower t) = upper t := by
  induction t with
  | nil => rfl
  | cons p rest ih =>
      have hlower : lower (p :: rest) = lowerPoint p ++ lower rest := List.flatMap_cons
      have hupper : upper (p :: rest) = upperPoint p ++ upper rest := List.flatMap_cons
      rw [hlower, List.forall_mem_append] at h
      rw [hlower, hupper, upper_append, upper_lowerPoint h.1, ih h.2]

end Text

end GraphDoc
