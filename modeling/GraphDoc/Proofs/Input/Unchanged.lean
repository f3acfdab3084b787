import GraphDoc.Proofs.Input.Arrival
import GraphDoc.Proofs.Input.Overlay

/-!
# GraphDoc.Proofs.Input.Unchanged

What stays behind where touched paths are not known.

A primitive then stays behind exactly if it equals the default value behind the
same names (`Preparation.Weighing.value_eq_none_iff`).  The exceptions are the
values that clear a field, nothing and an empty text: they stay behind in a creation
and go in a change, whatever their default value is.  So values that are their own
default values stay behind as a whole, if a change clears none of them
(`Preparation.Weighing.members_eq_nil`).
-/

namespace GraphDoc

namespace Preparation

variable {p : Preparation} {path : Text} {names above : List Text} {ms : Members} {v w : Value}

/-- What goes of a value is decided by the value at its path. -/
theorem Weighing.yields_iff (h : p.Weighing) :
    p.Yields path names v w ↔ names ≠ [] ∧ p.value (pathAlong path names) v = some w := by
  induction names generalizing path with
  | nil => simp [not_yields_nil]
  | cons name rest ih =>
      rw [yields_cons, ih, h.impartial.excluded, h.impartial.always]
      simp only [Place.Listed, h.reaches, pathAlong_cons]
      by_cases hrest : rest = [] <;> simp [hrest]

/-! ## values that are their own default values -/

/-- Members that stay behind where they are their own default values: no name is empty
or has a dot, each entry is an object or a primitive that equals itself, and clears no
field unless in a creation. -/
structure Settled (operation : InputOperation) (ms : Members) : Prop where
  distinct : (Assoc.keys ms).Nodup
  told : Told (Assoc.keys ms)
  each : ∀ m ∈ ms, (∃ inner, m.2 = .obj inner) ∨
    (m.2.Primitive ∧ m.2 ≠ .float .nan ∧ (m.2.blank = true → operation = .create))

/-- Nothing goes of members that are behind the same names among the default values. -/
theorem Weighing.members_eq_nil (h : p.Weighing) (hms : Throughout (Settled p.operation) ms)
    (habove : Told above) (hdefaults : p.defaults.follow? above = some (.obj ms)) :
    p.members (dotted above) ms = [] := by
  induction hms generalizing above with
  | @intro ms here inside ih =>
      rw [h.impartial.members_eq, List.filterMap_eq_nil_iff]
      intro m hm
      rw [Option.map_eq_none_iff, below_dotted fun name hname => (habove name hname).1]
      have htold : Told (above ++ [m.1]) :=
        List.forall_mem_append.2
          ⟨habove, List.forall_mem_singleton.2 (here.told m.1 (mem_keys_of_mem hm))⟩
      have hdefault : p.defaults.follow? (above ++ [m.1]) = some m.2 := by
        rw [Value.follow?_concat_obj hdefaults, lookup_eq_some_iff_mem here.distinct]
        exact hm
      rcases here.each m hm with ⟨inner, hinner⟩ | ⟨hprimitive, hnan, hblank⟩
      · have hmembers := ih m.1 inner (hinner ▸ hm) htold (hinner ▸ hdefault)
        rw [hinner, Option.eq_none_iff_forall_ne_some]
        exact fun w hw => (value_obj_eq_some.1 hw).2.1 hmembers
      · rw [h.value_eq_none_iff hprimitive, at?_dotted _ htold (by simp), hdefault]
        cases hclears : m.2.blank with
        | true => exact .inl ⟨rfl, hblank hclears⟩
        | false => exact .inr ⟨rfl, m.2, rfl, hprimitive.toPlain.equals_self hnan⟩

/-- What is found behind told names is what goes of the value there by its path. -/
theorem Weighing.follow?_run (h : p.Weighing) {values : Members}
    (hvalues : (Value.obj values).Distinct) (hsome : names ≠ []) (htold : Told names)
    (hv : (Value.obj values).follow? names = some v) :
    (Value.obj (p.run values)).follow? names = p.value (dotted names) v := by
  have hpath : pathAlong [] names = dotted names :=
    pathAlong_eq_dotted fun name hname => (htold name hname).1
  apply Option.ext
  intro w
  simp only [follow?_run_iff hvalues hsome, h.yields_iff, hpath, hv, Option.some.injEq,
    exists_eq_left', ne_eq, hsome, not_false_eq_true, true_and]

end Preparation

/-! ## requests -/

/-- **Unchanged values**: where touched paths are not known and nothing goes or stays
behind by its name, a primitive behind names without dots stays behind exactly if it
equals the default value behind them; one that clears a field stays behind in a
creation instead, and goes in a change.  So nothing goes of values that are their own
default values, in a change if they clear no field. -/
theorem run_request_unchanged (operation : InputOperation) (defaults : Value) {values : Members}
    (hvalues : (Value.obj values).Distinct) :
    ∃ result,
      (Preparation.request { operation := operation, defaults := defaults } values).run =
        .ok result ∧
      (∀ names v, names ≠ [] → Preparation.Told names →
        (Value.obj values).follow? names = some v → v.Primitive →
          ((Value.obj result).follow? names = none ↔
            (v.blank = true ∧ operation = .create) ∨
              (v.blank = false ∧ ∃ w, defaults.follow? names = some w ∧ v.equals w = true))) ∧
      (defaults = .obj values → Throughout (Preparation.Settled operation) values →
        result = []) := by
  have hweighing : Preparation.Weighing { operation := operation, defaults := defaults } :=
    ⟨⟨rfl, rfl⟩, rfl⟩
  refine ⟨_, Preparation.run_request _ values, fun names v hsome htold hv hprimitive => ?_, ?_⟩
  · rw [hweighing.follow?_run hvalues hsome htold hv, hweighing.value_eq_none_iff hprimitive,
      Preparation.at?_dotted _ htold hsome]
  · rintro rfl hsettled
    have htop : Preparation.Told [] := fun name hname => absurd hname List.not_mem_nil
    exact hweighing.members_eq_nil hsettled htop rfl

namespace Account

theorem settled : Throughout (Preparation.Settled .update) (withTheme "dark") := by
  have hname : (Value.str "Ada").Primitive := ⟨⟨by simp, by simp⟩, by simp⟩
  have htheme : (Value.str "dark").Primitive := ⟨⟨by simp, by simp⟩, by simp⟩
  have hsize : (Value.int 2).Primitive := ⟨⟨by simp, by simp⟩, by simp⟩
  have hsettings : Preparation.Settled .update (settings "dark") := by
    refine ⟨by decide, by decide, List.forall_mem_cons.2 ⟨.inr ⟨htheme, by simp, by decide⟩, ?_⟩⟩
    exact List.forall_mem_singleton.2 (.inr ⟨hsize, by simp, by decide⟩)
  refine .intro ⟨by decide, by decide, List.forall_mem_cons.2
    ⟨.inr ⟨hname, by simp, by decide⟩, List.forall_mem_singleton.2 (.inl ⟨_, rfl⟩)⟩⟩ ?_
  intro key inner hmem
  simp only [withTheme, List.mem_cons, Prod.mk.injEq, reduceCtorEq, and_false, Value.obj.injEq,
    List.not_mem_nil, or_false, false_or] at hmem
  obtain ⟨_, rfl⟩ := hmem
  exact .intro hsettings (by simp [settings])

end Account

/-- The theme of an account that is its own default value stays behind, and so does the
whole account. -/
theorem run_request_unchanged_account :
    (Value.obj (Account.withTheme "dark")).Distinct ∧
    Throughout (Preparation.Settled .update) (Account.withTheme "dark") ∧
    ∃ result,
      (Preparation.request { operation := .update, defaults := .obj (Account.withTheme "dark") }
        (Account.withTheme "dark")).run = .ok result ∧
      (Value.obj result).follow? ["settings", "theme"] = none ∧ result = [] := by
  obtain ⟨result, hrun, hunchanged, hself⟩ :=
    run_request_unchanged .update (.obj (Account.withTheme "dark"))
      (Account.distinct_withTheme "dark")
  refine ⟨Account.distinct_withTheme "dark", Account.settled, result, hrun, ?_,
    hself rfl Account.settled⟩
  have htheme : (Value.str "dark").Primitive := ⟨⟨by simp, by simp⟩, by simp⟩
  exact (hunchanged ["settings", "theme"] (.str "dark") (by simp) (by decide) rfl htheme).2
    (.inr ⟨rfl, _, rfl, rfl⟩)

/-- Not every primitive that equals its default value stays behind: a change clears a
field again that is clear already. -/
theorem not_all_unchanged_dropped :
    ¬ ∀ (operation : InputOperation) (defaults : Value) (values result : Members)
      (names : List Text) (v w : Value),
      (Value.obj values).Distinct → names ≠ [] → Preparation.Told names →
        (Value.obj values).follow? names = some v → v.Primitive →
          defaults.follow? names = some w → v.equals w = true →
            (Preparation.request { operation := operation, defaults := defaults } values).run =
              .ok result →
              (Value.obj result).follow? names = none := by
  intro h
  have hvalue : (Preparation.request { operation := .update, defaults := .obj [("notes", .null)] }
      [("notes", .null)]).run = .ok [("notes", .null)] := rfl
  have hdistinct : (Value.obj [("notes", .null)]).Distinct :=
    .obj (by decide) (List.forall_mem_singleton.2 (.plain ⟨by simp, by simp⟩))
  have hnotes := h _ _ _ _ ["notes"] .null .null hdistinct (by simp) (by decide) rfl
    ⟨⟨by simp, by simp⟩, by simp⟩ rfl rfl hvalue
  cases hnotes

end GraphDoc
