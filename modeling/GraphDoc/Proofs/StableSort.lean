import Mathlib.Data.List.Nodup
import Mathlib.Data.List.Perm.Basic

/-!
# GraphDoc.Proofs.StableSort

Lists that are sorted by groups.

Elements belong to groups, and the groups stand in an order.  `IsStableSort` says
which list is the stable sort of another one, without telling how to come by it:
the elements are the same, later groups come later, and each group keeps the
order that it had.  Taking the groups out one by one sorts a list
(`isStableSort_groups`), and no other list is its stable sort
(`isStableSort_iff`).
-/

namespace GraphDoc

variable {α κ : Type} [DecidableEq κ] {order : List κ} {group : α → κ}
  {xs ys zs : List α}

/-! ## groups -/

/-- Of lists that are made of groups each group can be taken out again. -/
theorem filter_flatMap_of_keyed {f : κ → List α} (keyed : ∀ k, ∀ x ∈ f k, group x = k)
    (distinct : order.Nodup) (k : κ) :
    (order.flatMap f).filter (fun x => group x = k) = if k ∈ order then f k else [] := by
  induction order with
  | nil => rfl
  | cons first rest ih =>
      obtain ⟨hfirst, hrest⟩ := List.nodup_cons.1 distinct
      rw [List.flatMap_cons, List.filter_append, ih hrest]
      by_cases hk : first = k
      · subst hk
        have hall : (f first).filter (fun x => group x = first) = f first :=
          List.filter_eq_self.2 fun x hx => decide_eq_true (keyed first x hx)
        rw [hall, if_neg hfirst, if_pos List.mem_cons_self, List.append_nil]
      · have hnone : (f first).filter (fun x => group x = k) = [] :=
          List.filter_eq_nil_iff.2 fun x hx => by simpa [keyed first x hx] using hk
        have hmem : k ∈ first :: rest ↔ k ∈ rest := by simp [Ne.symm hk]
        rw [hnone, List.nil_append]
        simp only [hmem]

/-- Nothing in a sorted list is of an earlier group than its first element. -/
theorem first_of_sorted {y a : α}
    (h : (y :: ys).Pairwise fun a b => order.idxOf (group a) ≤ order.idxOf (group b))
    (ha : a ∈ y :: ys) : order.idxOf (group y) ≤ order.idxOf (group a) := by
  rcases List.mem_cons.1 ha with rfl | ha
  · exact Nat.le_refl _
  · exact List.rel_of_pairwise_cons h ha

variable [DecidableEq α]

/-- Lists whose groups are the same have the same elements. -/
theorem perm_of_filter_eq
    (h : ∀ k, ys.filter (fun y => group y = k) = xs.filter (fun x => group x = k)) :
    ys.Perm xs := by
  refine List.perm_iff_count.2 fun a => ?_
  have hcount : ∀ l : List α, (l.filter fun x => group x = group a).count a = l.count a :=
    fun l => List.count_filter (by simp)
  rw [← hcount ys, ← hcount xs, h]

/-! ## sorted lists -/

/-- The stable sort of a list by groups. -/
structure IsStableSort (order : List κ) (group : α → κ) (xs ys : List α) : Prop where
  perm : ys.Perm xs
  sorted : ys.Pairwise fun a b => order.idxOf (group a) ≤ order.idxOf (group b)
  stable : ∀ k, ys.filter (fun y => group y = k) = xs.filter (fun x => group x = k)

/-- Taking the groups out in their order sorts a list. -/
theorem isStableSort_groups (distinct : order.Nodup) (all : ∀ k, k ∈ order) (xs : List α) :
    IsStableSort order group xs (order.flatMap fun k => xs.filter fun x => group x = k) := by
  have hkeyed : ∀ k, ∀ x ∈ xs.filter (fun x => group x = k), group x = k :=
    fun k x hx => of_decide_eq_true (List.mem_filter.1 hx).2
  have hstable : ∀ k, (order.flatMap fun k => xs.filter fun x => group x = k).filter
      (fun y => group y = k) = xs.filter (fun x => group x = k) := by
    intro k
    rw [filter_flatMap_of_keyed hkeyed distinct, if_pos (all k)]
  refine ⟨perm_of_filter_eq hstable, List.pairwise_flatMap.2 ⟨fun k _ => ?_, ?_⟩, hstable⟩
  · refine List.pairwise_of_forall_mem_list fun a ha b hb => ?_
    exact Nat.le_of_eq (by rw [hkeyed k a ha, hkeyed k b hb])
  · refine List.pairwise_iff_getElem.2 fun i j hi hj hij a ha b hb => ?_
    rw [hkeyed _ a ha, hkeyed _ b hb, distinct.idxOf_getElem, distinct.idxOf_getElem]
    exact Nat.le_of_lt hij

namespace IsStableSort

/-- Two sorted lists that agree group by group are the same. -/
theorem eq_of_filter_eq (all : ∀ k, k ∈ order)
    (hys : ys.Pairwise fun a b => order.idxOf (group a) ≤ order.idxOf (group b))
    (hzs : zs.Pairwise fun a b => order.idxOf (group a) ≤ order.idxOf (group b))
    (h : ∀ k, ys.filter (fun y => group y = k) = zs.filter (fun z => group z = k)) : ys = zs := by
  induction ys generalizing zs with
  | nil => exact (List.nil_perm.1 (perm_of_filter_eq h)).symm
  | cons y ys ih =>
      have hperm : (y :: ys).Perm zs := perm_of_filter_eq h
      cases zs with
      | nil => exact absurd hperm.eq_nil (List.cons_ne_nil y ys)
      | cons z zs =>
          -- Both first elements are of the first group that is there.
          have hgroup : group y = group z := by
            have hyz := first_of_sorted hys (hperm.mem_iff.2 List.mem_cons_self)
            have hzy := first_of_sorted hzs (hperm.mem_iff.1 List.mem_cons_self)
            exact (List.idxOf_inj (all _)).1 (Nat.le_antisymm hyz hzy)
          have hhead := h (group z)
          rw [List.filter_cons_of_pos (by simp [hgroup]),
            List.filter_cons_of_pos (by simp)] at hhead
          obtain rfl : y = z := (List.cons.inj hhead).1
          refine congrArg (y :: ·) (ih hys.of_cons hzs.of_cons fun k => ?_)
          have hk := h k
          rw [List.filter_cons, List.filter_cons] at hk
          split at hk
          · exact (List.cons.inj hk).2
          · exact hk

/-- A stable sort has one result. -/
theorem unique (all : ∀ k, k ∈ order) (hys : IsStableSort order group xs ys)
    (hzs : IsStableSort order group xs zs) : ys = zs :=
  eq_of_filter_eq all hys.sorted hzs.sorted fun k => (hys.stable k).trans (hzs.stable k).symm

end IsStableSort

/-- A stable sort is the groups one after the other, each in its order. -/
theorem isStableSort_iff (distinct : order.Nodup) (all : ∀ k, k ∈ order) :
    IsStableSort order group xs ys ↔
      ys = order.flatMap fun k => xs.filter fun x => group x = k := by
  constructor
  · intro h
    exact h.unique all (isStableSort_groups distinct all xs)
  · rintro rfl
    exact isStableSort_groups distinct all xs

end GraphDoc
