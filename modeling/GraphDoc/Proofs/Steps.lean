import Mathlib.Data.List.Forall2

/-!
# GraphDoc.Proofs.Steps

Computations that may fail, taken apart step by step.

* A sequence of steps succeeds exactly when each step does: `bind_eq_ok`,
  `mapM_eq_ok`.
* `Avoids` says that a computation never fails in some of the ways in which it
  might; a sequence of steps avoids what each step avoids.  `Meets` says that it
  does: it is the first step to fail that counts (`meets_bind`, `meets_mapM`).
* `Follows` compares two computations: one of them succeeds wherever the other
  does, and on demand fails wherever the other does; a sequence of steps follows
  another one if each step does.
-/

namespace GraphDoc

variable {ε : Type u} {α β : Type v} {ι : Type w}

/-! ## success -/

/-- A sequence succeeds if both steps do. -/
theorem bind_eq_ok {x : Except ε α} {f : α → Except ε β} {b : β} :
    x >>= f = .ok b ↔ ∃ a, x = .ok a ∧ f a = .ok b := by
  cases x <;> simp [bind, Except.bind]

/-- A finished step has the value that it was given. -/
theorem pure_eq_ok {a b : α} : (pure a : Except ε α) = .ok b ↔ a = b := by
  simp [pure, Except.pure]

/-- A last step that cannot fail does not decide whether the steps succeed. -/
theorem exists_bind_pure_eq_ok {x : Except ε α} {f : α → β} :
    (∃ b, (x >>= fun a => pure (f a)) = .ok b) ↔ ∃ a, x = .ok a := by
  simp only [bind_eq_ok, pure_eq_ok]
  constructor
  · intro h
    obtain ⟨_, a, ha, _⟩ := h
    exact ⟨a, ha⟩
  · intro h
    obtain ⟨a, ha⟩ := h
    exact ⟨f a, a, ha, rfl⟩

@[simp] theorem throw_ne_ok {e : ε} {a : α} : (throw e : Except ε α) ≠ .ok a := by
  simp [throw, throwThe, MonadExceptOf.throw]

/-- A computation succeeds with one result only. -/
theorem ok_unique {x : Except ε α} {a b : α} (ha : x = .ok a) (hb : x = .ok b) : a = b :=
  Except.ok.inj (ha.symm.trans hb)

/-- A step for each element succeeds with the results in the order of the
elements. -/
theorem mapM_eq_ok {f : ι → Except ε β} {xs : List ι} {ys : List β} :
    xs.mapM f = .ok ys ↔ List.Forall₂ (fun x y => f x = .ok y) xs ys := by
  induction xs generalizing ys with
  | nil =>
      rw [List.mapM_nil, pure_eq_ok, List.forall₂_nil_left_iff]
      exact eq_comm
  | cons x xs ih =>
      rw [List.mapM_cons, bind_eq_ok, List.forall₂_cons_left_iff]
      simp only [bind_eq_ok, pure_eq_ok, ih]
      constructor
      · intro h
        obtain ⟨y, hy, ys', hys, he⟩ := h
        exact ⟨y, ys', hy, hys, he.symm⟩
      · intro h
        obtain ⟨y, ys', hy, hys, he⟩ := h
        exact ⟨y, hy, ys', hys, he.symm⟩

/-- A step for each element succeeds as soon as the step for each element
does. -/
theorem exists_mapM_eq_ok {f : ι → Except ε β} {xs : List ι} :
    (∃ ys, xs.mapM f = .ok ys) ↔ ∀ x ∈ xs, ∃ y, f x = .ok y := by
  simp only [mapM_eq_ok]
  induction xs with
  | nil => exact ⟨fun _ _ hx => absurd hx List.not_mem_nil, fun _ => ⟨[], .nil⟩⟩
  | cons x xs ih =>
      rw [List.forall_mem_cons, ← ih]
      constructor
      · intro h
        obtain ⟨ys, hys⟩ := h
        cases hys with
        | cons hy hrest => exact ⟨⟨_, hy⟩, ⟨_, hrest⟩⟩
      · intro h
        obtain ⟨⟨y, hy⟩, ⟨ys, hys⟩⟩ := h
        exact ⟨y :: ys, .cons hy hys⟩

/-- Steps that agree on the elements of a list have the same outcome, and stop
at the same element. -/
theorem mapM_congr_of_mem {f g : ι → Except ε β} {xs : List ι} (h : ∀ x ∈ xs, f x = g x) :
    xs.mapM f = xs.mapM g := by
  induction xs with
  | nil => rfl
  | cons x xs ih =>
      rw [List.forall_mem_cons] at h
      rw [List.mapM_cons, List.mapM_cons, h.1, ih h.2]

/-- Two relations that agree on the elements of a list relate it to the same
lists. -/
theorem forall₂_congr_of_mem {R S : ι → β → Prop} {xs : List ι} {ys : List β}
    (h : ∀ x ∈ xs, ∀ y, R x y ↔ S x y) : List.Forall₂ R xs ys ↔ List.Forall₂ S xs ys := by
  induction xs generalizing ys with
  | nil => rw [List.forall₂_nil_left_iff, List.forall₂_nil_left_iff]
  | cons x xs ih =>
      have hx := h x List.mem_cons_self
      have hxs : ∀ ys, List.Forall₂ R xs ys ↔ List.Forall₂ S xs ys := fun ys =>
        ih fun z hz => h z (List.mem_cons_of_mem x hz)
      simp only [List.forall₂_cons_left_iff, hx, hxs]

/-- Related elements with the same image give lists with the same image. -/
theorem map_eq_map_of_forall₂ {R : ι → β → Prop} {f : ι → α} {g : β → α} {xs : List ι}
    {ys : List β} (h : List.Forall₂ R xs ys) (hfg : ∀ x y, R x y → g y = f x) :
    ys.map g = xs.map f := by
  induction h with
  | nil => rfl
  | cons hxy _ ih => rw [List.map_cons, List.map_cons, hfg _ _ hxy, ih]

/-- Two lists that are related are both empty or neither. -/
theorem ne_nil_of_forall₂ {R : ι → β → Prop} {xs : List ι} {ys : List β}
    (h : List.Forall₂ R xs ys) (hxs : xs ≠ []) : ys ≠ [] := by
  intro hys
  rw [hys] at h
  exact hxs (List.forall₂_nil_right_iff.1 h)

/-- Each element has a partner on the other side. -/
theorem exists_of_forall₂_of_mem {R : ι → β → Prop} {xs : List ι} {ys : List β}
    (h : List.Forall₂ R xs ys) {x : ι} (hx : x ∈ xs) : ∃ y ∈ ys, R x y := by
  induction h with
  | nil => exact absurd hx List.not_mem_nil
  | cons hxy _ ih =>
      rcases List.mem_cons.1 hx with rfl | hx
      · exact ⟨_, List.mem_cons_self, hxy⟩
      · obtain ⟨y, hy, hr⟩ := ih hx
        exact ⟨y, List.mem_cons_of_mem _ hy, hr⟩

/-- What holds of the elements of one list exactly if something holds of those
of the other. -/
theorem forall_mem_iff_of_forall₂ {R : ι → β → Prop} {P : ι → Prop} {Q : β → Prop} {xs : List ι}
    {ys : List β} (h : List.Forall₂ R xs ys) (hpq : ∀ x ∈ xs, ∀ y, R x y → (Q y ↔ P x)) :
    (∀ y ∈ ys, Q y) ↔ ∀ x ∈ xs, P x := by
  induction h with
  | nil => simp
  | cons hxy _ ih =>
      rw [List.forall_mem_cons] at hpq
      rw [List.forall_mem_cons, List.forall_mem_cons, hpq.1 _ hxy, ih hpq.2]

/-- A property that partners share is met on both sides or on neither. -/
theorem exists_mem_iff_of_forall₂ {R : ι → β → Prop} {P : ι → Prop} {Q : β → Prop} {xs : List ι}
    {ys : List β} (h : List.Forall₂ R xs ys) (hpq : ∀ x ∈ xs, ∀ y, R x y → (Q y ↔ P x)) :
    (∃ y ∈ ys, Q y) ↔ ∃ x ∈ xs, P x := by
  have hnone := forall_mem_iff_of_forall₂ h fun x hx y hr => not_congr (hpq x hx y hr)
  simpa using not_congr hnone

/-- What holds of all partners holds of the other side. -/
theorem forall_mem_of_forall₂ {R : ι → β → Prop} {Q : β → Prop} {xs : List ι} {ys : List β}
    (h : List.Forall₂ R xs ys) (hq : ∀ x ∈ xs, ∀ y, R x y → Q y) : ∀ y ∈ ys, Q y :=
  (forall_mem_iff_of_forall₂ (P := fun _ => True) h
    fun x hx y hr => iff_true_intro (hq x hx y hr)).2 fun _ _ => trivial

/-- Lists that are related step by step, the first to the second and that to the third. -/
theorem forall₂_comp {γ : Type w'} {R : ι → α → Prop} {S : α → γ → Prop} {T : ι → γ → Prop}
    {xs : List ι} {ys : List α} {zs : List γ} (hxy : List.Forall₂ R xs ys)
    (hyz : List.Forall₂ S ys zs) (h : ∀ x y z, R x y → S y z → T x z) :
    List.Forall₂ T xs zs := by
  induction hxy generalizing zs with
  | nil =>
      cases hyz
      exact .nil
  | cons hr _ ih =>
      cases hyz with
      | cons hs hrest => exact .cons (h _ _ _ hr hs) (ih hrest)

/-- The results of a step for each element are the results of the elements. -/
theorem mem_of_mapM_eq_ok {f : ι → Except ε β} {xs : List ι} {ys : List β}
    (h : xs.mapM f = .ok ys) {y : β} : y ∈ ys ↔ ∃ x ∈ xs, f x = .ok y := by
  have hresult : (∃ y' ∈ ys, y' = y) ↔ ∃ x ∈ xs, f x = .ok y :=
    exists_mem_iff_of_forall₂ (mapM_eq_ok.1 h) fun x _ y' hy => by simp [hy]
  simpa using hresult

/-! ## failure -/

/-- Whatever error a computation ends with, it is none of the `bad` ones. -/
def Avoids (bad : ε → Prop) (x : Except ε α) : Prop := ∀ e, x = .error e → ¬ bad e

variable {bad : ε → Prop}

theorem avoids_ok (a : α) : Avoids bad (.ok a : Except ε α) := by
  intro e h
  cases h

theorem avoids_error {e : ε} (h : ¬ bad e) : Avoids bad (.error e : Except ε α) := by
  intro e' he
  cases he
  exact h

/-- Steps in sequence avoid what each of them avoids. -/
theorem Avoids.bind {x : Except ε α} {f : α → Except ε β} (hx : Avoids bad x)
    (hf : ∀ a, x = .ok a → Avoids bad (f a)) : Avoids bad (x >>= f) := by
  cases x with
  | error e => exact avoids_error (hx e rfl)
  | ok a => exact hf a rfl

/-- What is done to a result adds no error. -/
theorem Avoids.map {x : Except ε α} (hx : Avoids bad x) (f : α → β) : Avoids bad (x.map f) := by
  cases x with
  | error e => exact avoids_error (hx e rfl)
  | ok a => exact avoids_ok (f a)

/-- Steps one after the other avoid what each of them avoids. -/
theorem Avoids.mapM {f : ι → Except ε β} {xs : List ι} (hf : ∀ x ∈ xs, Avoids bad (f x)) :
    Avoids bad (xs.mapM f) := by
  induction xs with
  | nil => exact avoids_ok []
  | cons x xs ih =>
      rw [List.mapM_cons]
      refine (hf x List.mem_cons_self).bind fun y _ => ?_
      refine (ih fun z hz => hf z (List.mem_cons_of_mem x hz)).bind fun ys _ => ?_
      exact avoids_ok (y :: ys)

/-- What avoids some errors avoids fewer. -/
theorem Avoids.mono {worse : ε → Prop} {x : Except ε α} (hx : Avoids bad x)
    (h : ∀ e, worse e → bad e) : Avoids worse x :=
  fun e he hworse => hx e he (h e hworse)

/-- A computation ends with one of the `bad` errors. -/
def Meets (bad : ε → Prop) (x : Except ε α) : Prop := ∃ e, x = .error e ∧ bad e

@[simp] theorem not_meets_ok (a : α) : ¬ Meets bad (.ok a : Except ε α) := by
  rintro ⟨e, h, _⟩
  cases h

@[simp] theorem not_meets_pure (a : α) : ¬ Meets bad (pure a : Except ε α) := not_meets_ok a

@[simp] theorem meets_error {e : ε} : Meets bad (.error e : Except ε α) ↔ bad e := by
  simp [Meets]

/-- What avoids some errors meets none of them. -/
theorem Avoids.not_meets {x : Except ε α} (hx : Avoids bad x) : ¬ Meets bad x := by
  rintro ⟨e, he, hbad⟩
  exact hx e he hbad

/-- Of steps in sequence the first one fails, or it succeeds and the next one
fails. -/
theorem meets_bind {x : Except ε α} {f : α → Except ε β} :
    Meets bad (x >>= f) ↔ Meets bad x ∨ ∃ a, x = .ok a ∧ Meets bad (f a) := by
  cases x with
  | error e =>
      have herror : (.error e : Except ε α) >>= f = .error e := rfl
      simp [herror]
  | ok a =>
      have hok : (.ok a : Except ε α) >>= f = f a := rfl
      simp [hok]

/-- Of a step for each element one fails, and all before it succeed. -/
theorem meets_mapM {f : ι → Except ε β} {xs : List ι} :
    Meets bad (xs.mapM f) ↔
      ∃ done x rest, xs = done ++ x :: rest ∧ (∀ y ∈ done, ∃ b, f y = .ok b) ∧
        Meets bad (f x) := by
  induction xs with
  | nil =>
      rw [List.mapM_nil]
      refine ⟨fun h => absurd h (not_meets_pure []), fun h => ?_⟩
      obtain ⟨done, x, rest, hxs, _⟩ := h
      simp at hxs
  | cons x xs ih =>
      rw [List.mapM_cons, meets_bind]
      simp only [meets_bind, not_meets_pure, and_false, exists_false, or_false, ih]
      constructor
      · intro h
        rcases h with h | ⟨y, hy, done, z, rest, hxs, hdone, hz⟩
        · exact ⟨[], x, xs, rfl, fun _ hd => absurd hd List.not_mem_nil, h⟩
        · refine ⟨x :: done, z, rest, by rw [hxs, List.cons_append], ?_, hz⟩
          rw [List.forall_mem_cons]
          exact ⟨⟨y, hy⟩, hdone⟩
      · intro h
        obtain ⟨done, z, rest, hxs, hdone, hz⟩ := h
        cases done with
        | nil =>
            cases hxs
            exact .inl hz
        | cons d done =>
            cases hxs
            rw [List.forall_mem_cons] at hdone
            obtain ⟨⟨y, hy⟩, hdone⟩ := hdone
            exact .inr ⟨y, hy, done, z, rest, rfl, hdone, hz⟩

/-- The same where a step can fail in no other way: it is enough that some step
fails. -/
theorem meets_mapM_of_total {f : ι → Except ε β} {xs : List ι}
    (h : ∀ x ∈ xs, (∃ b, f x = .ok b) ∨ Meets bad (f x)) :
    Meets bad (xs.mapM f) ↔ ∃ x ∈ xs, Meets bad (f x) := by
  induction xs with
  | nil => simp
  | cons x xs ih =>
      rw [List.forall_mem_cons] at h
      rw [List.mapM_cons, meets_bind]
      simp only [meets_bind, not_meets_pure, and_false, exists_false, or_false, ih h.2,
        List.mem_cons, exists_eq_or_imp]
      constructor
      · rintro (hx | ⟨y, _, hxs⟩)
        · exact .inl hx
        · exact .inr hxs
      · rintro (hx | hxs)
        · exact .inl hx
        · rcases h.1 with ⟨y, hy⟩ | hx
          · exact .inr ⟨y, hy, hxs⟩
          · exact .inl hx

/-- To meet one error is to end with it. -/
theorem meets_eq_iff {x : Except ε α} {e : ε} : Meets (fun e' => e' = e) x ↔ x = .error e := by
  simp [Meets]

@[simp] theorem pure_ne_error {a : α} {e : ε} : (pure a : Except ε α) ≠ .error e := by
  simp [pure, Except.pure]

/-- A sequence fails if the first step does, or if the second does behind it. -/
theorem bind_eq_error {x : Except ε α} {f : α → Except ε β} {e : ε} :
    x >>= f = .error e ↔ x = .error e ∨ ∃ a, x = .ok a ∧ f a = .error e := by
  cases x <;> simp [bind, Except.bind]

/-- The first step to fail decides with which error. -/
theorem mapM_eq_error {f : ι → Except ε β} {xs : List ι} {e : ε} :
    xs.mapM f = .error e ↔
      ∃ done x rest, xs = done ++ x :: rest ∧ (∀ y ∈ done, ∃ b, f y = .ok b) ∧ f x = .error e := by
  simp only [← meets_eq_iff]
  exact meets_mapM

/-! ## two computations -/

/-- The second computation comes to every result of the first; an exact one
also ends with the same errors. -/
structure Follows (exact : Prop) (x y : Except ε α) : Prop where
  ok : ∀ a, x = .ok a → y = .ok a
  error : exact → ∀ e, x = .error e → y = .error e

variable {exact : Prop}

/-- Every outcome follows itself. -/
theorem Follows.refl (x : Except ε α) : Follows exact x x where
  ok _ h := h
  error _ _ h := h

/-- Computations that follow each other exactly are equal. -/
theorem Follows.eq {x y : Except ε α} (h : Follows True x y) : x = y := by
  cases hx : x with
  | error e => exact (h.error trivial e hx).symm
  | ok a => exact (h.ok a hx).symm

/-- Steps in sequence follow steps that they follow one by one. -/
theorem Follows.bind {x y : Except ε α} {f g : α → Except ε β} (hx : Follows exact x y)
    (hf : ∀ a, Follows exact (f a) (g a)) : Follows exact (x >>= f) (y >>= g) := by
  cases x with
  | error e =>
      refine ⟨fun b h => ?_, fun hexact e' h => ?_⟩
      · cases h
      · cases h
        rw [hx.error hexact e rfl]
        rfl
  | ok a =>
      rw [hx.ok a rfl]
      exact hf a

/-- What is done to both results keeps one outcome following the other. -/
theorem Follows.map {x y : Except ε α} (hx : Follows exact x y) (f : α → β) :
    Follows exact (x.map f) (y.map f) := by
  cases x with
  | error e =>
      refine ⟨fun b h => ?_, fun hexact e' h => ?_⟩
      · cases h
      · cases h
        rw [hx.error hexact e rfl]
        rfl
  | ok a =>
      rw [hx.ok a rfl]
      exact .refl _

/-- Steps follow one after the other if each follows its own. -/
theorem Follows.mapM {f g : ι → Except ε β} {xs : List ι}
    (h : ∀ x ∈ xs, Follows exact (f x) (g x)) : Follows exact (xs.mapM f) (xs.mapM g) := by
  induction xs with
  | nil => exact .refl _
  | cons x xs ih =>
      rw [List.forall_mem_cons] at h
      rw [List.mapM_cons, List.mapM_cons]
      refine h.1.bind fun y => ?_
      refine (ih h.2).bind fun ys => ?_
      exact .refl _

end GraphDoc
