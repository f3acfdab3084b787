/-!
# GraphDoc.Insertion

Lists in ascending order, by insertion.

The list is in order as far as its first run goes: an ascending run, or a
descending one that is turned round.  Every later element is then inserted
behind all that it is not less than, and bisection finds the place.  Where the
order is total any stable way to sort gives the same list; where some elements
are in no order to the others, as an undefined number is, the place of each is
the one that the bisection comes to.
-/

namespace GraphDoc.Insertion

variable {α : Type u}

/-! ## the first run -/

/-- Splits off the elements at the front of which each holds to the one before;
`last` stands before the first. -/
def chain (holds : α → α → Bool) (last : α) : List α → List α × List α
  | [] => ([], [])
  | x :: rest =>
    if holds last x then
      let split := chain holds x rest
      (x :: split.1, split.2)
    else ([], x :: rest)

/-- The first run in ascending order, and what follows it. -/
def firstRun (less : α → α → Bool) : List α → List α × List α
  | [] => ([], [])
  | [x] => ([x], [])
  | x :: y :: rest =>
    if less y x then
      let split := chain (fun a b => less b a) x (y :: rest)
      ((x :: split.1).reverse, split.2)
    else
      let split := chain (fun a b => !less b a) x (y :: rest)
      (x :: split.1, split.2)

/-! ## insertion -/

/-- Inserts an element at the place that bisection finds. -/
def insert (less : α → α → Bool) (x : α) (xs : List α) : List α :=
  match _h : xs.drop (xs.length / 2) with
  | [] => x :: xs
  | middle :: behind =>
    if less x middle then insert less x (xs.take (xs.length / 2)) ++ middle :: behind
    else xs.take (xs.length / 2) ++ middle :: insert less x behind
termination_by xs.length
decreasing_by
  · have := congrArg List.length _h
    simp only [List.length_drop, List.length_cons] at this
    simp only [List.length_take]
    omega
  · have := congrArg List.length _h
    simp only [List.length_drop, List.length_cons] at this
    omega

/-- A list in ascending order. -/
def sort (less : α → α → Bool) (xs : List α) : List α :=
  let split := firstRun less xs
  split.2.foldl (fun done x => insert less x done) split.1

/-! ## nothing is lost -/

/-- A chain and what follows it are the list that was split. -/
theorem chain_append (holds : α → α → Bool) (last : α) (xs : List α) :
    (chain holds last xs).1 ++ (chain holds last xs).2 = xs := by
  induction xs generalizing last with
  | nil => rfl
  | cons x rest ih =>
    by_cases h : holds last x = true
    · simp [chain, h, ih]
    · simp [chain, h]

/-- The first run and what follows it hold the elements of the list, a run that was
turned round in another order. -/
theorem firstRun_perm (less : α → α → Bool) (xs : List α) :
    ((firstRun less xs).1 ++ (firstRun less xs).2).Perm xs := by
  match xs with
  | [] => exact .refl _
  | [x] => exact .refl _
  | x :: y :: rest =>
    by_cases h : less y x = true
    · have hchain := chain_append (fun a b => less b a) x (y :: rest)
      simp only [firstRun, if_pos h]
      refine ((List.reverse_perm _).append_right _).trans ?_
      rw [List.cons_append, hchain]
    · have hchain := chain_append (fun a b => !less b a) x (y :: rest)
      simp only [firstRun, if_neg h]
      rw [List.cons_append, hchain]

/-- Insertion adds the element and nothing else, wherever bisection comes to. -/
theorem insert_perm (less : α → α → Bool) (x : α) (xs : List α) :
    (insert less x xs).Perm (x :: xs) := by
  fun_induction insert less x xs with
  | case1 => exact .refl _
  | case2 xs middle behind h _ ih =>
    have hx : xs = xs.take (xs.length / 2) ++ middle :: behind := by
      rw [← h, List.take_append_drop]
    exact (ih.append_right _).trans (by rw [List.cons_append, ← hx])
  | case3 xs middle behind h _ ih =>
    have hx : xs = xs.take (xs.length / 2) ++ middle :: behind := by
      rw [← h, List.take_append_drop]
    refine ((ih.cons middle).append_left _).trans ?_
    refine ((List.Perm.swap x middle behind).append_left _).trans ?_
    exact List.perm_middle.trans (by rw [← hx])

/-- Insertion one after the other adds the elements that come later. -/
theorem foldl_insert_perm (less : α → α → Bool) (later done : List α) :
    (later.foldl (fun done x => insert less x done) done).Perm (done ++ later) := by
  induction later generalizing done with
  | nil => rw [List.append_nil]; exact .refl _
  | cons x rest ih =>
    refine (ih (insert less x done)).trans ?_
    exact ((insert_perm less x done).append_right rest).trans List.perm_middle.symm

/-- Sorting only moves the elements, also where some of them are in no order. -/
theorem sort_perm (less : α → α → Bool) (xs : List α) : (sort less xs).Perm xs :=
  (foldl_insert_perm less _ _).trans (firstRun_perm less xs)

end GraphDoc.Insertion
