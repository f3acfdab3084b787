import GraphDoc.Expansion
import GraphDoc.Proofs.Steps

/-!
# GraphDoc.Proofs.Expansion.Growth

The life of a registry.

A `Step` is one use of a registry; a use that fails leaves the registry as it
was.  `register_eq_ok_iff` says when a type is added and what the registry then
holds, and everything else follows from it:

* a step only extends what is there, and nothing once the registry is frozen:
  `Extends`, `extends_perform`, `extends_after`;
* the registered types stay distinct, in the order of registration:
  `types_after`, `nodup_types_after`;
* a composite column can be requested exactly if its type is registered:
  `fieldRequest_composite`.
-/

namespace GraphDoc.Registry

/-! ## registration -/

variable {r s : Registry}

/-- A type is registered exactly if it has parts. -/
theorem mem_types_iff {t : WireType} : t ∈ r.types ↔ (r.parts? t).isSome = true := by
  simp only [parts?, types, Assoc.keys, List.lookup_isSome_iff, List.mem_map, beq_iff_eq]
  exact exists_congr fun e => and_congr_right fun _ => eq_comm

/-- What is found is found under the name of a registered type. -/
theorem find?_isSome_iff {wireType : Text} :
    (∃ parts, r.find? wireType = some parts) ↔
      wireType ∈ r.types.map fun t => Text.ofString t.text := by
  rw [List.mem_map]
  constructor
  · rintro ⟨parts, h⟩
    obtain ⟨t, ht, hparts⟩ := Option.bind_eq_some_iff.1 h
    exact ⟨t, mem_types_iff.2 (Option.isSome_of_mem hparts), WireType.text_of_ofText? ht⟩
  · rintro ⟨t, ht, rfl⟩
    obtain ⟨parts, hparts⟩ := Option.isSome_iff_exists.1 (mem_types_iff.1 ht)
    exact ⟨parts, by rw [find?, WireType.ofText?_text, Option.bind_some, hparts]⟩

/-- The registry with a type at its end. -/
def extended (r : Registry) (t : WireType) (parts : List Text) : Registry :=
  { r with entries := r.entries ++ [(t, parts)] }

@[simp] theorem types_extended (r : Registry) (t : WireType) (parts : List Text) :
    (r.extended t parts).types = r.types ++ [t] := by
  simp [extended, types, Assoc.keys]

/-- A frozen registry takes up nothing. -/
theorem register_of_frozen (h : r.frozen = true) (type : Value) (parts : List Text) :
    r.register type parts = .error .registryFrozen := by
  unfold register
  exact if_pos h

/-- A type is added if it is one that is not there yet. -/
theorem register_new (h : r.frozen = false) {t : WireType} (ht : t ∉ r.types)
    (parts : List Text) : r.register (.str t.text) parts = .ok (r.extended t parts) := by
  have hparts : ¬ (r.parts? t).isSome = true := fun hs => ht (mem_types_iff.2 hs)
  simp [register, h, WireType.ofText?_text, hparts, extended]

/-- A type is taken up once. -/
theorem register_again (h : r.frozen = false) {t : WireType} (ht : t ∈ r.types)
    (parts : List Text) : r.register (.str t.text) parts = .error (.alreadyRegistered t) := by
  have hparts : (r.parts? t).isSome = true := mem_types_iff.1 ht
  simp [register, h, WireType.ofText?_text, hparts]

/-- Only the name of a composite type is taken up. -/
theorem register_unknown (h : r.frozen = false) {type : Value}
    (htype : ∀ t : WireType, type ≠ .str t.text) (parts : List Text) :
    r.register type parts = .error (.unknownWireType type) := by
  cases type with
  | str name =>
      cases hname : WireType.ofText? name with
      | none => simp [register, h, hname]
      | some t => exact absurd (congrArg Value.str (WireType.text_of_ofText? hname).symm) (htype t)
  | _ => simp [register, h]

/-- What a value names, and where the named type then stands. -/
theorem type_cases (r : Registry) (type : Value) :
    (∀ t : WireType, type ≠ .str t.text) ∨ (∃ t ∈ r.types, type = .str t.text) ∨
      ∃ t ∉ r.types, type = .str t.text := by
  by_cases htype : ∃ t : WireType, type = .str t.text
  · obtain ⟨t, ht⟩ := htype
    by_cases hmem : t ∈ r.types
    · exact .inr (.inl ⟨t, hmem, ht⟩)
    · exact .inr (.inr ⟨t, hmem, ht⟩)
  · exact .inl fun t ht => htype ⟨t, ht⟩

/-- **Registration**: a registry that is not frozen takes each type once, at its
end. -/
theorem register_eq_ok_iff {type : Value} {parts : List Text} :
    r.register type parts = .ok s ↔
      r.frozen = false ∧ ∃ t ∉ r.types, type = .str t.text ∧ s = r.extended t parts := by
  constructor
  · intro h
    cases hf : r.frozen with
    | true =>
        rw [register_of_frozen hf] at h
        cases h
    | false =>
        rcases type_cases r type with hno | ⟨t, ht, rfl⟩ | ⟨t, ht, rfl⟩
        · rw [register_unknown hf hno] at h
          cases h
        · rw [register_again hf ht] at h
          cases h
        · rw [register_new hf ht] at h
          exact ⟨rfl, t, ht, rfl, (Except.ok.inj h).symm⟩
  · rintro ⟨hf, t, ht, rfl, rfl⟩
    exact register_new hf ht parts

/-- A registration fails for one of three causes, and the first one that
applies is told. -/
theorem register_eq_error_iff {type : Value} {parts : List Text} {e : Error} :
    r.register type parts = .error e ↔
      (r.frozen = true ∧ e = .registryFrozen) ∨
      (r.frozen = false ∧ (∀ t : WireType, type ≠ .str t.text) ∧ e = .unknownWireType type) ∨
      (r.frozen = false ∧ ∃ t ∈ r.types, type = .str t.text ∧ e = .alreadyRegistered t) := by
  constructor
  · intro h
    cases hf : r.frozen with
    | true =>
        rw [register_of_frozen hf] at h
        exact .inl ⟨rfl, (Except.error.inj h).symm⟩
    | false =>
        rcases type_cases r type with hno | ⟨t, ht, rfl⟩ | ⟨t, ht, rfl⟩
        · rw [register_unknown hf hno] at h
          exact .inr (.inl ⟨rfl, hno, (Except.error.inj h).symm⟩)
        · rw [register_again hf ht] at h
          exact .inr (.inr ⟨rfl, t, ht, rfl, (Except.error.inj h).symm⟩)
        · rw [register_new hf ht] at h
          cases h
  · rintro (⟨hf, rfl⟩ | ⟨hf, hno, rfl⟩ | ⟨hf, t, ht, rfl, rfl⟩)
    · exact register_of_frozen hf type parts
    · exact register_unknown hf hno parts
    · exact register_again hf ht parts

/-! ## steps -/

/-- One use of a registry. -/
inductive Step where
  | register (type : Value) (parts : List Text)
  | freeze
  | find (wireType : Text)
  | request (table : Text) (field : Field)

/-- What a use of a registry comes back with. -/
inductive Reply where
  | parts (found : Option (List Text))
  | frozen
  | request (request : FieldRequest)
  deriving DecidableEq

/-- A use of a registry: what it comes back with, and the registry behind it. -/
def perform (r : Registry) : Step → Except Error Reply × Registry
  | .register type parts =>
    match r.register type parts with
    | .ok s => (.ok (.parts (some parts)), s)
    | .error e => (.error e, r)
  | .freeze => (.ok .frozen, r.freeze)
  | .find wireType => (.ok (.parts (r.find? wireType)), r)
  | .request table f => ((fieldRequest r table f).map .request, r)

/-- The registry behind a run of steps. -/
def after (r : Registry) (steps : List Step) : Registry :=
  steps.foldl (fun s step => (s.perform step).2) r

/-- The type that a step adds. -/
def addition? (r : Registry) : Step → Option WireType
  | .register (.str name) parts =>
    match r.register (.str name) parts with
    | .ok _ => WireType.ofText? name
    | .error _ => none
  | _ => none

/-- The types that the steps of a run add, in order. -/
def added (r : Registry) : List Step → List WireType
  | [] => []
  | step :: rest => (r.addition? step).toList ++ added (r.perform step).2 rest

@[simp] theorem after_nil (r : Registry) : r.after [] = r := rfl

@[simp] theorem after_cons (r : Registry) (step : Step) (rest : List Step) :
    r.after (step :: rest) = (r.perform step).2.after rest := rfl

/-- Steps can be taken in two runs. -/
theorem after_append (r : Registry) (steps more : List Step) :
    r.after (steps ++ more) = (r.after steps).after more := List.foldl_append

/-- A step adds a new type to a registry that is not frozen, or freezes it, or
leaves it as it is. -/
theorem perform_cases (r : Registry) (step : Step) :
    (∃ t ∉ r.types, ∃ parts, r.frozen = false ∧ r.addition? step = some t ∧
      (r.perform step).2 = r.extended t parts) ∨
    (r.addition? step = none ∧ step = .freeze ∧ (r.perform step).2 = r.freeze) ∨
    (r.addition? step = none ∧ step ≠ .freeze ∧ (r.perform step).2 = r) := by
  cases step with
  | freeze => exact .inr (.inl ⟨rfl, rfl, rfl⟩)
  | find wireType => exact .inr (.inr ⟨rfl, by simp, rfl⟩)
  | request table f => exact .inr (.inr ⟨rfl, by simp, rfl⟩)
  | register type parts =>
      cases h : r.register type parts with
      | error e =>
          refine .inr (.inr ⟨?_, by simp, by simp [perform, h]⟩)
          cases type with
          | str name => simp [addition?, h]
          | _ => rfl
      | ok s =>
          obtain ⟨hf, t, ht, rfl, rfl⟩ := register_eq_ok_iff.1 h
          refine .inl ⟨t, ht, parts, hf, ?_, by simp [perform, h]⟩
          simp [addition?, h, WireType.ofText?_text]

/-- A step that fails leaves the registry as it is. -/
theorem perform_of_error {step : Step} {e : Error} (h : (r.perform step).1 = .error e) :
    (r.perform step).2 = r := by
  cases step with
  | freeze => cases h
  | find wireType => rfl
  | request table f => rfl
  | register type parts =>
      cases hr : r.register type parts with
      | error e' => simp [perform, hr]
      | ok s => simp [perform, hr] at h

/-- A step fails exactly if what it registers is refused. -/
theorem perform_register_eq_error_iff {type : Value} {parts : List Text} {e : Error} :
    (r.perform (.register type parts)).1 = .error e ↔ r.register type parts = .error e := by
  cases hr : r.register type parts <;> simp [perform, hr]

/-! ## what a run keeps -/

/-- The second registry holds what the first one holds, and possibly more
behind it; if the first one is frozen the two are equal. -/
structure Extends (r s : Registry) : Prop where
  entries : r.entries <+: s.entries
  frozen : r.frozen = true → s = r

/-- A registry extends itself. -/
theorem Extends.refl (r : Registry) : r.Extends r := ⟨List.prefix_rfl, fun _ => rfl⟩

theorem Extends.trans {q : Registry} (hrs : r.Extends s) (hsq : s.Extends q) : r.Extends q where
  entries := hrs.entries.trans hsq.entries
  frozen hr := by
    have hs : s = r := hrs.frozen hr
    have hq : q = s := hsq.frozen (hs ▸ hr)
    rw [hq, hs]

/-- A registry that extends another one has its types, in order, before its own. -/
theorem Extends.types (h : r.Extends s) : r.types <+: s.types := h.entries.map Prod.fst

/-- What was found once is found again. -/
theorem Extends.find? (h : r.Extends s) {wireType : Text} {parts : List Text}
    (hfound : r.find? wireType = some parts) : s.find? wireType = some parts := by
  obtain ⟨t, ht, hparts⟩ := Option.bind_eq_some_iff.1 hfound
  obtain ⟨more, hmore⟩ := h.entries
  rw [Registry.find?, ht, Option.bind_some, parts?, ← hmore, List.lookup_append]
  exact Option.or_eq_some_iff.2 (.inl hparts)

/-- No step takes anything out of a registry. -/
theorem extends_perform (r : Registry) (step : Step) : r.Extends (r.perform step).2 := by
  rcases perform_cases r step with ⟨t, _, parts, hf, _, h⟩ | ⟨_, _, h⟩ | ⟨_, _, h⟩
  · rw [h]
    exact ⟨List.prefix_append _ _, fun hr => absurd hr (by simp [hf])⟩
  · rw [h]
    exact ⟨List.prefix_rfl, fun hr => by rw [freeze, ← hr]⟩
  · rw [h]
    exact .refl r

/-- **Growth**: a run only adds to a registry, and changes nothing about a
frozen one. -/
theorem extends_after (r : Registry) (steps : List Step) : r.Extends (r.after steps) := by
  induction steps generalizing r with
  | nil => exact .refl r
  | cons step rest ih => exact (extends_perform r step).trans (ih _)

/-- A step adds at most one type, at the end. -/
theorem types_perform (r : Registry) (step : Step) :
    (r.perform step).2.types = r.types ++ (r.addition? step).toList := by
  rcases perform_cases r step with ⟨t, _, parts, _, ha, h⟩ | ⟨ha, _, h⟩ | ⟨ha, _, h⟩
  · rw [h, ha, types_extended, Option.toList_some]
  · rw [h, ha, Option.toList_none, List.append_nil]
    rfl
  · rw [h, ha, Option.toList_none, List.append_nil]

/-- The types behind a run are those before it and then those that its steps
added. -/
theorem types_after (r : Registry) (steps : List Step) :
    (r.after steps).types = r.types ++ r.added steps := by
  induction steps generalizing r with
  | nil => exact (List.append_nil _).symm
  | cons step rest ih => rw [after_cons, ih, types_perform, List.append_assoc, added]

/-- A step does not register a type again. -/
theorem nodup_types_perform (h : r.types.Nodup) (step : Step) :
    (r.perform step).2.types.Nodup := by
  rcases perform_cases r step with ⟨t, ht, parts, _, _, hs⟩ | ⟨_, _, hs⟩ | ⟨_, _, hs⟩
  · rw [hs, types_extended]
    exact (List.perm_append_singleton t r.types).nodup_iff.2 (List.nodup_cons.2 ⟨ht, h⟩)
  · rw [hs]
    exact h
  · rw [hs]
    exact h

/-- No run registers a type twice. -/
theorem nodup_types_after (h : r.types.Nodup) (steps : List Step) :
    (r.after steps).types.Nodup := by
  induction steps generalizing r with
  | nil => exact h
  | cons step rest ih => exact ih (nodup_types_perform h step)

/-- A frozen registry stays frozen. -/
theorem frozen_after (h : r.frozen = true) (steps : List Step) : (r.after steps).frozen = true := by
  rw [(extends_after r steps).frozen h]
  exact h

/-- A run with a step that freezes leaves the registry frozen. -/
theorem frozen_after_freeze {steps : List Step} (h : .freeze ∈ steps) :
    (r.after steps).frozen = true := by
  obtain ⟨before, behind, rfl⟩ := List.append_of_mem h
  rw [after_append, after_cons]
  exact frozen_after rfl behind

/-- The step that registers a type with its parts. -/
def registration (entry : WireType × List Text) : Step := .register (.str entry.1.text) entry.2

/-- New and distinct types are all added, in their order. -/
theorem after_registrations (hf : r.frozen = false) {entries : List (WireType × List Text)}
    (hnew : (r.types ++ Assoc.keys entries).Nodup) :
    r.after (entries.map registration) = { r with entries := r.entries ++ entries } := by
  induction entries generalizing r with
  | nil => rw [List.append_nil, List.map_nil, after_nil]
  | cons e rest ih =>
      rw [Assoc.keys_cons, List.append_cons] at hnew
      have he : e.1 ∉ r.types := by
        have := (List.nodup_append.1 hnew).1
        exact fun h => (List.nodup_append.1 this).2.2 _ h _ List.mem_cons_self rfl
      have hstep : (r.perform (registration e)).2 = r.extended e.1 e.2 := by
        simp only [perform, registration, register_new hf he]
      have hrest := ih (r := r.extended e.1 e.2) hf (by rwa [types_extended])
      rw [List.map_cons, after_cons, hstep, hrest]
      simp [extended]

/-- The standard registry is what one comes to by registering its types one
after the other and then freezing it. -/
theorem standard_eq_after :
    Registry.standard = ({} : Registry).after
      (Registry.standard.entries.map registration ++ [.freeze]) := by
  have hnew : (({} : Registry).types ++ Assoc.keys Registry.standard.entries).Nodup := by decide
  rw [after_append, after_registrations rfl hnew]
  rfl

/-! ## requests -/

/-- A composite column can be requested exactly if its type is registered. -/
theorem fieldRequest_composite {f : Field} (hf : f.composite = true) (table : Text) :
    (∃ request, fieldRequest r table f = .ok request) ↔
      f.wireType ∈ r.types.map fun t => Text.ofString t.text := by
  rw [← find?_isSome_iff, fieldRequest, if_pos hf]
  cases r.find? f.wireType <;> simp

/-- A column that is not composite is requested by its name. -/
theorem fieldRequest_plain {f : Field} (hf : f.composite = false) (table : Text) :
    fieldRequest r table f = .ok (.plain f) := by
  rw [fieldRequest, if_neg (by simp [hf])]

/-! ## every run -/

/-- The types of a registry that began empty or as the standard one are
distinct. -/
theorem nodup_types_of_start {start : Registry} (hstart : start = {} ∨ start = .standard)
    (steps : List Step) : (start.after steps).types.Nodup := by
  have hempty : ({} : Registry).types.Nodup := List.nodup_nil
  rcases hstart with rfl | rfl
  · exact nodup_types_after hempty steps
  · rw [standard_eq_after, ← after_append]
    exact nodup_types_after hempty _

/-- **Growth until the freeze**: whatever is done with a registry that began
empty or as the standard one, its types are distinct, those of the start first
and then those added, in order; one more step only adds behind them; parts that
were found are found again, however the run goes on; a step that fails changes
nothing.  A registration fails in a frozen registry, for what is no composite
type and for a type that is there, and never otherwise; from the first freeze on
nothing changes and every registration fails.  At any moment a composite column
can be requested exactly if its type is registered, and any other column is
requested by its name. -/
theorem growing_until_frozen {start : Registry} (hstart : start = {} ∨ start = .standard)
    (steps : List Step) :
    let r := start.after steps
    (r.types = start.types ++ start.added steps ∧ r.types.Nodup) ∧
    (∀ step, r.types <+: (r.perform step).2.types) ∧
    (∀ wireType parts, r.find? wireType = some parts →
      ∀ more, (r.after more).find? wireType = some parts) ∧
    (∀ step e, (r.perform step).1 = .error e → (r.perform step).2 = r) ∧
    (∀ type parts e, (r.perform (.register type parts)).1 = .error e ↔
      (r.frozen = true ∧ e = .registryFrozen) ∨
      (r.frozen = false ∧ (∀ t : WireType, type ≠ .str t.text) ∧ e = .unknownWireType type) ∨
      (r.frozen = false ∧ ∃ t ∈ r.types, type = .str t.text ∧ e = .alreadyRegistered t)) ∧
    (start = .standard ∨ .freeze ∈ steps →
      (∀ more, r.after more = r) ∧
      ∀ type parts, (r.perform (.register type parts)).1 = .error .registryFrozen) ∧
    (∀ table f, f.composite = true →
      ((∃ request, fieldRequest r table f = .ok request) ↔
        f.wireType ∈ r.types.map fun t => Text.ofString t.text)) ∧
    (∀ table f, f.composite = false → fieldRequest r table f = .ok (.plain f)) := by
  intro r
  refine ⟨⟨types_after start steps, nodup_types_of_start hstart steps⟩, ?_, ?_, ?_, ?_, ?_, ?_, ?_⟩
  · exact fun step => (extends_perform r step).types
  · exact fun wireType parts h more => (extends_after r more).find? h
  · exact fun step e h => perform_of_error h
  · exact fun type parts e => perform_register_eq_error_iff.trans register_eq_error_iff
  · intro h
    have hf : r.frozen = true := by
      rcases h with rfl | h
      · exact frozen_after rfl steps
      · exact frozen_after_freeze h
    refine ⟨fun more => (extends_after r more).frozen hf, fun type parts => ?_⟩
    exact perform_register_eq_error_iff.2 (register_of_frozen hf type parts)
  · exact fun table f hf => fieldRequest_composite hf table
  · exact fun table f hf => fieldRequest_plain hf table

/-- A registry that takes up one type and is then frozen has this type, keeps its parts
in all further steps, and refuses every other. -/
theorem growing_until_frozen_interval :
    let r := ({} : Registry).after [registration (.interval, intervalParts), .freeze]
    r.types = [.interval] ∧ (∀ more, (r.after more).find? "Interval" = some intervalParts) ∧
    ∀ type parts, (r.perform (.register type parts)).1 = .error .registryFrozen := by
  intro r
  obtain ⟨⟨htypes, _⟩, _, hfound, _, _, hfrozen, _, _⟩ :=
    growing_until_frozen (.inl rfl) [registration (.interval, intervalParts), .freeze]
  refine ⟨?_, ?_, ?_⟩
  · exact htypes.trans (by decide)
  · exact hfound "Interval" intervalParts (by decide)
  · exact (hfrozen (.inr (by simp))).2

end GraphDoc.Registry
