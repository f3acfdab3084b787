import Mathlib.Data.Finset.Card

/-!
# GraphDoc.Proofs.Firsts

The distinct elements of a list, in the order in which they first come.

`List.eraseDups` keeps the first of each element.  `IsFirst limit xs ys` says
without it which list `ys` the first `limit` distinct elements of `xs` are: they
stand in the order of their first places in `xs`, there are as many of them as
the limit and the list allow, and nothing that is left over comes before any of
them.  There is one such list (`IsFirst.unique`), and cutting off `eraseDups`
gives it (`isFirst_take_eraseDups`).
-/

namespace GraphDoc

variable {α : Type} [BEq α] {xs ys : List α}

/-! ## elements in the order of their first places -/

/-- Elements in the order in which they first stand in a list are distinct. -/
theorem nodup_of_pairwise_idxOf (h : ys.Pairwise fun a b => xs.idxOf a < xs.idxOf b) :
    ys.Nodup := by
  refine List.Pairwise.imp (fun hlt he => ?_) h
  rw [he] at hlt
  exact Nat.lt_irrefl _ hlt

variable [LawfulBEq α]

/-- An element that comes behind a list is new or was there before. -/
theorem eraseDups_concat (xs : List α) (x : α) :
    (xs ++ [x]).eraseDups = if x ∈ xs then xs.eraseDups else xs.eraseDups ++ [x] := by
  rw [List.eraseDups_append]
  by_cases hx : x ∈ xs <;> simp [List.removeAll, hx, List.eraseDups_cons]

/-- Without later copies, elements stand in the order in which they first stood. -/
theorem pairwise_eraseDups (xs : List α) :
    xs.eraseDups.Pairwise fun a b => xs.idxOf a < xs.idxOf b := by
  induction xs using List.reverseRecOn with
  | nil => exact .nil
  | append_singleton xs x ih =>
      -- What came before keeps its first place.
      have hkept : xs.eraseDups.Pairwise fun a b => (xs ++ [x]).idxOf a < (xs ++ [x]).idxOf b := by
        refine ih.imp_of_mem fun ha hb hab => ?_
        rwa [List.idxOf_append_of_mem (List.mem_eraseDups.1 ha),
          List.idxOf_append_of_mem (List.mem_eraseDups.1 hb)]
      rw [eraseDups_concat]
      split
      · exact hkept
      · next hx =>
        refine List.pairwise_append.2 ⟨hkept, List.pairwise_singleton _ _, fun a ha b hb => ?_⟩
        have ha := List.mem_eraseDups.1 ha
        rw [List.mem_singleton.1 hb, List.idxOf_append_of_mem ha, List.idxOf_append_of_notMem hx]
        exact Nat.lt_add_right _ (List.idxOf_lt_length_of_mem ha)

/-- Without later copies, elements are distinct. -/
theorem nodup_eraseDups (xs : List α) : xs.eraseDups.Nodup :=
  nodup_of_pairwise_idxOf (pairwise_eraseDups xs)

/-- Without later copies a list has as many elements as it has distinct ones. -/
theorem length_eraseDups [DecidableEq α] (xs : List α) :
    xs.eraseDups.length = xs.toFinset.card := by
  have hsame : xs.eraseDups.toFinset = xs.toFinset := by
    ext x
    rw [List.mem_toFinset, List.mem_toFinset, List.mem_eraseDups]
  rw [← hsame, List.toFinset_card_of_nodup (nodup_eraseDups xs)]

/-! ## the first of them -/

variable [DecidableEq α]

/-- The first `limit` distinct elements of a list, all of them if there are
fewer. -/
structure IsFirst (limit : Nat) (xs ys : List α) : Prop where
  subset : ys ⊆ xs
  ordered : ys.Pairwise fun a b => xs.idxOf a < xs.idxOf b
  length : ys.length = min limit xs.toFinset.card
  /-- What is left over comes later. -/
  earliest : ∀ y ∈ ys, ∀ x ∈ xs, x ∉ ys → xs.idxOf y < xs.idxOf x

/-- Leaving out later copies finds the first elements. -/
theorem isFirst_take_eraseDups (limit : Nat) (xs : List α) :
    IsFirst limit xs (xs.eraseDups.take limit) where
  subset y hy := List.mem_eraseDups.1 (List.mem_of_mem_take hy)
  ordered := (pairwise_eraseDups xs).sublist (List.take_sublist _ _)
  length := by rw [List.length_take, length_eraseDups]
  earliest := by
    intro y hy x hx hleft
    have hsplit := pairwise_eraseDups xs
    rw [← List.take_append_drop limit xs.eraseDups, List.pairwise_append] at hsplit
    have hx := List.mem_eraseDups.2 hx
    rw [← List.take_append_drop limit xs.eraseDups, List.mem_append] at hx
    exact hsplit.2.2 y hy x (hx.resolve_left hleft)

namespace IsFirst

variable {limit : Nat} {zs : List α}

/-- Of two lists of first elements neither has one that the other lacks. -/
theorem mem_of_mem (hy : IsFirst limit xs ys) (hz : IsFirst limit xs zs) {x : α} (hx : x ∈ ys) :
    x ∈ zs := by
  by_contra hleft
  have hlong : zs.length = ys.length := by rw [hy.length, hz.length]
  have hzdistinct : zs.Nodup := nodup_of_pairwise_idxOf hz.ordered
  -- As both are equally long, the other one has an element that this one lacks.
  have hother : ∃ z ∈ zs, z ∉ ys := by
    by_contra hnone
    have hsub : zs ⊆ ys := fun z hmem => by
      by_contra hlack
      exact hnone ⟨z, hmem, hlack⟩
    have hperm : zs.Perm ys := (List.subperm_of_subset hzdistinct hsub).perm_of_length_le hlong.ge
    exact hleft (hperm.mem_iff.2 hx)
  obtain ⟨z, hmem, hlack⟩ := hother
  have hbefore := hy.earliest x hx z (hz.subset hmem) hlack
  have hbehind := hz.earliest z hmem x (hy.subset hx) hleft
  exact Nat.lt_asymm hbefore hbehind

/-- Only one list holds the first elements. -/
theorem unique (hy : IsFirst limit xs ys) (hz : IsFirst limit xs zs) : ys = zs := by
  have hydistinct : ys.Nodup := nodup_of_pairwise_idxOf hy.ordered
  have hzdistinct : zs.Nodup := nodup_of_pairwise_idxOf hz.ordered
  have hperm : ys.Perm zs := (List.perm_ext_iff_of_nodup hydistinct hzdistinct).2 fun x =>
    ⟨hy.mem_of_mem hz, hz.mem_of_mem hy⟩
  exact hperm.eq_of_pairwise (fun a b _ _ hab hba => absurd hba (Nat.lt_asymm hab)) hy.ordered
    hz.ordered

end IsFirst

/-- The first elements are what leaving out later copies finds. -/
theorem isFirst_iff {limit : Nat} : IsFirst limit xs ys ↔ ys = xs.eraseDups.take limit := by
  constructor
  · intro h
    exact h.unique (isFirst_take_eraseDups limit xs)
  · rintro rfl
    exact isFirst_take_eraseDups limit xs

end GraphDoc
