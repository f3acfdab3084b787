import GraphDoc.Proofs.Schema.Columns
import GraphDoc.Proofs.StableSort

/-!
# GraphDoc.Proofs.Schema.Groups

Relations in groups, and what metadata declares of them.

Grouping a list of relations and going over the groups sorts the list by kind and
keeps the order inside each kind (`Relations.isStableSort_iff_toList`).  Groups
all of whose relations are filed under their kind are what their list groups to
(`Relations.ofList_toList`).

Metadata lists the relations of each kind under a key of its own, and tells the
far end in its own way (`RelationDeclaration.ofTable`).  Loading keeps every
declaration that tells a field and a far end, and files it under its kind
(`declared_relations_of_ofMetadata`).
-/

namespace GraphDoc

/-! ## groups -/

namespace RelationKind

theorem nodup_all : all.Nodup := by decide

theorem mem_all (k : RelationKind) : k ∈ all := by
  cases k <;> decide

end RelationKind

namespace Relations

variable {rs : Relations}

/-- The relations that are filed under a kind. -/
def group (rs : Relations) : RelationKind → List Relation
  | .belongsTo => rs.belongsTo
  | .hasOne => rs.hasOne
  | .hasMany => rs.hasMany
  | .manyToMany => rs.manyToMany

/-- Each relation is filed under its kind. -/
def Filed (rs : Relations) : Prop := ∀ k, ∀ r ∈ rs.group k, r.kind = k

/-- The relations of a table are those of each kind, kind after kind. -/
theorem toList_eq_flatMap (rs : Relations) : rs.toList = RelationKind.all.flatMap rs.group := by
  simp [toList, RelationKind.all, group]

/-- Grouping keeps the order within each kind. -/
theorem group_ofList (rels : List Relation) (k : RelationKind) :
    (ofList rels).group k = rels.filter fun r => r.kind = k := by
  cases k <;> rfl

/-- In each group are relations of its kind. -/
theorem filed_ofList (rels : List Relation) : (ofList rels).Filed := by
  intro k r hr
  rw [group_ofList] at hr
  exact of_decide_eq_true (List.mem_filter.1 hr).2

/-- Filed relations are what their list groups to. -/
theorem ofList_toList (h : rs.Filed) : ofList rs.toList = rs := by
  have hgroup : ∀ k, rs.toList.filter (fun r => r.kind = k) = rs.group k := by
    intro k
    rw [toList_eq_flatMap, filter_flatMap_of_keyed h RelationKind.nodup_all,
      if_pos (RelationKind.mem_all k)]
  simp only [ofList, hgroup]
  rfl

/-- Grouping sorts by kind. -/
theorem isStableSort_iff_toList {rels sorted : List Relation} :
    IsStableSort RelationKind.all Relation.kind rels sorted ↔ sorted = (ofList rels).toList := by
  have hgroup : (ofList rels).group = fun k => rels.filter fun r => r.kind = k :=
    funext (group_ofList rels)
  rw [isStableSort_iff RelationKind.nodup_all RelationKind.mem_all, toList_eq_flatMap, hgroup]

end Relations

/-! ## declarations -/

/-- What metadata declares of a relation: its field, its kind, and the table at
its far end. -/
structure RelationDeclaration where
  field : Value
  kind : RelationKind
  target : Value

/-- The declaration of a relation once it is loaded. -/
def Relation.declaration (r : Relation) : RelationDeclaration where
  field := .str r.field
  kind := r.kind
  target := .str r.target

namespace RelationDeclaration

/-- The far end that a value tells: the name of an object, or the value itself. -/
def told : Value → Value
  | .obj ms => Value.ofOption (ms.lookup ("name" : Text))
  | v => v

/-- The declaration of an entry that tells the far end under `endKey`. -/
def ofEntry (kind : RelationKind) (endKey : Text) (entry : Value) : RelationDeclaration where
  field := Value.ofOption (entry.member? "fieldName")
  kind := kind
  target := told (Value.ofOption (entry.member? endKey))

/-- A declaration counts if it tells a field and a far end. -/
def counts (d : RelationDeclaration) : Bool := d.field.truthy && d.target.truthy

/-- The entries that are listed under a key. -/
def entries (relations : Value) (key : Text) : List Value :=
  match relations.member? key with
  | some (.arr entries) => entries
  | _ => []

/-- The declarations of a kind that count, in order. -/
def ofKind (relations : Value) (kind : RelationKind) (key endKey : Text) :
    List RelationDeclaration :=
  ((entries relations key).map (ofEntry kind endKey)).filter counts

/-- The declarations of a table that count, kind by kind. -/
def ofTable (raw : Value) : List RelationDeclaration :=
  let relations := Value.ofOption (raw.member? "relations")
  ofKind relations .belongsTo "belongsTo" "references" ++
    ofKind relations .hasOne "hasOne" "referencedBy" ++
    ofKind relations .hasMany "hasMany" "referencedBy" ++
    ofKind relations .manyToMany "manyToMany" "rightTable"

/-- Declarations of a kind have this kind. -/
theorem kind_of_mem_ofKind {relations : Value} {kind : RelationKind} {key endKey : Text}
    {d : RelationDeclaration} (h : d ∈ ofKind relations kind key endKey) : d.kind = kind := by
  obtain ⟨entry, _, rfl⟩ := List.mem_map.1 (List.mem_filter.1 h).1
  rfl

end RelationDeclaration

/-! ## loading keeps the declarations -/

section

variable {kind : RelationKind} {key endKey : Text} {entry : Value} {ms : Members}

theorem Value.truthy_orElse_empty (v : Value) : (v.orElse (.str [])).truthy = v.truthy := by
  by_cases h : v.truthy = true
  · rw [Value.orElse, if_pos h]
  · rw [Value.orElse, if_neg h, Bool.eq_false_iff.2 h]
    rfl

/-- What does not count as given has no members. -/
theorem Value.member?_of_not_truthy {v : Value} (h : v.truthy = false) (key : Text) :
    v.member? key = none := by
  cases v with
  | obj ms =>
      have hms : ms = [] := by simpa [Value.truthy] using h
      rw [hms, Value.member?]
      rfl
  | _ => rfl

/-- The far end of an entry is the one that is told, if it counts as given. -/
theorem farEnd_eq (v : Value) : farEnd v = (RelationDeclaration.told v).orElse (.str []) := by
  cases v <;> rfl

/-- An entry that counts is no empty value. -/
theorem RelationDeclaration.truthy_of_counts
    (h : (RelationDeclaration.ofEntry kind endKey entry).counts = true) : entry.truthy = true := by
  by_contra hnot
  have hmember := Value.member?_of_not_truthy (Bool.eq_false_iff.2 hnot)
  simp [RelationDeclaration.counts, RelationDeclaration.ofEntry, hmember, Value.ofOption,
    Value.truthy] at h

/-- A relation tells what it was declared as. -/
theorem Relation.declaration_of_make {field target : Value} {r : Relation}
    (h : Relation.make field target kind = .ok r) : r.declaration = ⟨field, kind, target⟩ := by
  simp only [Relation.make, bind_eq_ok, pure_eq_ok, checkName_eq_ok_iff] at h
  obtain ⟨_, ⟨rfl, _⟩, _, ⟨rfl, _⟩, rfl⟩ := h
  rfl

/-- Loading an entry keeps its declaration if that counts. -/
theorem Relation.declaration_of_ofMetadata {found : Option Relation}
    (h : Relation.ofMetadata kind endKey entry = .ok found) :
    found.map Relation.declaration =
      Option.guard RelationDeclaration.counts (.ofEntry kind endKey entry) := by
  have hskipped : found = none → (RelationDeclaration.ofEntry kind endKey entry).counts = false →
      found.map Relation.declaration =
        Option.guard RelationDeclaration.counts (.ofEntry kind endKey entry) := by
    intro hfound hcounts
    rw [hfound, Option.guard, hcounts]
    rfl
  unfold Relation.ofMetadata at h
  split at h
  · next hentry =>
    refine hskipped (pure_eq_ok.1 h).symm (Bool.eq_false_iff.2 fun hcounts => ?_)
    simp [RelationDeclaration.truthy_of_counts hcounts] at hentry
  · obtain ⟨ms, hms, hrest⟩ := bind_eq_ok.1 h
    obtain rfl : entry = .obj ms := Value.eq_obj_of_members hms
    have hfield : (RelationDeclaration.ofEntry kind endKey (.obj ms)).field =
        optionalMember ms "fieldName" := rfl
    have hend : farEnd (optionalMember ms endKey) =
        (RelationDeclaration.ofEntry kind endKey (.obj ms)).target.orElse (.str []) := farEnd_eq _
    simp only [hend, ← hfield, Value.truthy_orElse_empty] at hrest
    split at hrest
    · next hnone =>
      refine hskipped (pure_eq_ok.1 hrest).symm ?_
      simp only [Bool.not_eq_true'] at hnone
      rw [RelationDeclaration.counts, hnone, Bool.false_and]
    · next hthere =>
      split at hrest
      · next hnone =>
        refine hskipped (pure_eq_ok.1 hrest).symm ?_
        simp only [Bool.not_eq_true'] at hnone
        rw [RelationDeclaration.counts, hnone, Bool.and_false]
      · next hleads =>
        obtain ⟨r, hmake, hr⟩ := bind_eq_ok.1 hrest
        simp only [Bool.not_eq_true', Bool.not_eq_false] at hthere hleads
        rw [Value.orElse, if_pos hleads] at hmake
        have hcounts : (RelationDeclaration.ofEntry kind endKey (.obj ms)).counts = true := by
          rw [RelationDeclaration.counts, hthere, hleads]
          rfl
        rw [← pure_eq_ok.1 hr, Option.map_some, Relation.declaration_of_make hmake, Option.guard,
          if_pos hcounts]
        rfl

/-- Entries that do not count as given declare nothing that counts. -/
theorem RelationDeclaration.filter_counts_given (entries : List Value) :
    ((entries.filter Value.truthy).map (ofEntry kind endKey)).filter counts =
      (entries.map (ofEntry kind endKey)).filter counts := by
  rw [List.filter_map, List.filter_map, List.filter_filter]
  refine congrArg (List.map _) (List.filter_congr fun entry _ => ?_)
  rw [Function.comp_apply, Bool.and_eq_left_iff_imp]
  exact truthy_of_counts

/-- Loading entries one by one keeps the declarations that count. -/
theorem declared_of_mapM {items : List Value} {found : List (Option Relation)}
    (h : items.mapM (Relation.ofMetadata kind endKey) = .ok found) :
    (found.filterMap id).map Relation.declaration =
      (items.map (RelationDeclaration.ofEntry kind endKey)).filter RelationDeclaration.counts := by
  have heach := map_eq_map_of_forall₂ (mapM_eq_ok.1 h) fun _ _ ho =>
    Relation.declaration_of_ofMetadata ho
  calc (found.filterMap id).map Relation.declaration
      = (found.map (Option.map Relation.declaration)).filterMap id := by
        rw [List.map_filterMap, List.filterMap_map]
        rfl
    _ = (items.map (RelationDeclaration.ofEntry kind endKey)).filterMap
          (Option.guard RelationDeclaration.counts) := by
        rw [heach, List.filterMap_map, List.filterMap_map]
        rfl
    _ = _ := congrFun (List.filterMap_eq_filter ..) _

/-- Loading the entries of a kind keeps the declarations that count. -/
theorem declared_relationsOfKind {relations : Value} {rels : List Relation}
    (hrelations : ∀ key, relations.member? key = ms.lookup key)
    (h : relationsOfKind ms kind key endKey = .ok rels) :
    rels.map Relation.declaration = RelationDeclaration.ofKind relations kind key endKey := by
  simp only [relationsOfKind, bind_eq_ok, pure_eq_ok] at h
  obtain ⟨items, hitems, found, hfound, rfl⟩ := h
  have hobj : ∀ item ∈ items, item.truthy = true → ∃ inner, item = .obj inner := by
    intro item hitem hgiven
    obtain ⟨o, ho⟩ := exists_mapM_eq_ok.1 ⟨found, hfound⟩ item hitem
    rw [Relation.ofMetadata, if_neg (by simp [hgiven])] at ho
    obtain ⟨inner, hinner, _⟩ := bind_eq_ok.1 ho
    exact ⟨inner, Value.eq_obj_of_members hinner⟩
  have hentries : items.filter Value.truthy =
      (RelationDeclaration.entries relations key).filter Value.truthy := by
    rw [filter_truthy_of_listed hitems hobj, RelationDeclaration.entries, hrelations]
    cases ms.lookup key with
    | none => rfl
    | some v => cases v <;> rfl
  rw [declared_of_mapM hfound, ← RelationDeclaration.filter_counts_given, hentries,
    RelationDeclaration.filter_counts_given]
  rfl

/-- Loading a table files each relation under its kind and keeps the declarations
that count. -/
theorem declared_relations_of_ofMetadata {raw : Value} {t : Table}
    (h : Table.ofMetadata raw = .ok t) :
    t.relations.Filed ∧
      t.relations.toList.map Relation.declaration = RelationDeclaration.ofTable raw := by
  simp only [Table.ofMetadata, Table.make, bind_eq_ok, pure_eq_ok] at h
  obtain ⟨ms, hms, rels, hrels, _, _, _, _, _, _, _, _, rfl⟩ := h
  obtain rfl : raw = .obj ms := Value.eq_obj_of_members hms
  simp only [relationsOfMetadata, relationSources, bind_eq_ok, pure_eq_ok, mapM_eq_ok,
    List.forall₂_cons_left_iff, List.forall₂_nil_left_iff] at hrels
  obtain ⟨inner, hinner, _, ⟨belongsTo, _, hbelongsTo, ⟨hasOne, _, hhasOne, ⟨hasMany, _, hhasMany,
    ⟨manyToMany, _, hmanyToMany, rfl, rfl⟩, rfl⟩, rfl⟩, rfl⟩, rfl⟩ := hrels
  have hmembers := Value.member?_of_members_orElse hinner
  let grouped : Relations := { belongsTo, hasOne, hasMany, manyToMany }
  have hkinds : ∀ {rels kind key endKey}, relationsOfKind inner kind key endKey = .ok rels →
      ∀ r ∈ rels, r.kind = kind := by
    intro rels kind key endKey hload r hr
    have hdeclared := List.mem_map_of_mem (f := Relation.declaration) hr
    rw [declared_relationsOfKind hmembers hload] at hdeclared
    exact RelationDeclaration.kind_of_mem_ofKind hdeclared
  have hfiled : grouped.Filed := by
    intro k
    cases k
    · exact hkinds hbelongsTo
    · exact hkinds hhasOne
    · exact hkinds hhasMany
    · exact hkinds hmanyToMany
  have hlist : [belongsTo, hasOne, hasMany, manyToMany].flatten = grouped.toList := by
    simp [grouped, Relations.toList]
  rw [hlist, Relations.ofList_toList hfiled]
  refine ⟨hfiled, ?_⟩
  simp only [grouped, Relations.toList, List.map_append,
    declared_relationsOfKind hmembers hbelongsTo, declared_relationsOfKind hmembers hhasOne,
    declared_relationsOfKind hmembers hhasMany, declared_relationsOfKind hmembers hmanyToMany]
  rfl

end

/-- **Relations in groups**: going over the relations of a table from metadata
gives the relations that its entries declare, kind after kind and in the order of
the entries, each of them once and filed under its kind; entries without a field
or a far end are all that is left out.  Going over the groups of any list of
relations gives its stable sort by kind, which groups to the same again. -/
theorem relations_in_groups :
    (∀ raw t, Table.ofMetadata raw = .ok t → t.relations.Filed ∧
      t.relations.toList.map Relation.declaration = RelationDeclaration.ofTable raw) ∧
    ∀ rels, (∀ sorted, IsStableSort RelationKind.all Relation.kind rels sorted ↔
        sorted = (Relations.ofList rels).toList) ∧
      Relations.ofList (Relations.ofList rels).toList = Relations.ofList rels := by
  refine ⟨fun _ _ h => declared_relations_of_ofMetadata h, fun rels => ⟨fun sorted => ?_, ?_⟩⟩
  · exact Relations.isStableSort_iff_toList
  · exact Relations.ofList_toList (Relations.filed_ofList rels)

namespace Catalogue

def relation (field endKey : Text) (target : Value) : Value :=
  .obj [("fieldName", .str field), (endKey, target)]

/-- The entry of an article, with relations of three kinds.  Those to a shelf,
a note and a colour tell no field or no far end. -/
def article : Value := .obj [
  ("name", .str "Article"),
  ("relations", .obj [
    ("manyToMany", .arr [relation "colours" "rightTable" (.obj []),
      relation "tags" "rightTable" (.obj [("name", .str "Tag")])]),
    ("hasMany", .arr [.null, relation "sales" "referencedBy" (.str "Sale"),
      relation "notes" "references" (.str "Note"),
      relation "photos" "referencedBy" (.obj [("name", .str "Photo")])]),
    ("belongsTo", .arr [relation "" "references" (.str "Shelf"),
      relation "maker" "references" (.obj [("name", .str "Maker")])])])]

/-- The article once it is loaded. -/
def table : Table where
  name := "Article"
  relations := {
    belongsTo := [⟨"maker", .belongsTo, "Maker"⟩]
    hasMany := [⟨"sales", .hasMany, "Sale"⟩, ⟨"photos", .hasMany, "Photo"⟩]
    manyToMany := [⟨"tags", .manyToMany, "Tag"⟩] }

end Catalogue

/-- The relations of an article are loaded group by group, without those that name no
target or no field. -/
theorem relations_in_groups_catalogue :
    Table.ofMetadata Catalogue.article = .ok Catalogue.table ∧
      RelationDeclaration.ofTable Catalogue.article = [
        ⟨.str "maker", .belongsTo, .str "Maker"⟩, ⟨.str "sales", .hasMany, .str "Sale"⟩,
        ⟨.str "photos", .hasMany, .str "Photo"⟩, ⟨.str "tags", .manyToMany, .str "Tag"⟩] := by
  have hload : Table.ofMetadata Catalogue.article = .ok Catalogue.table := rfl
  exact ⟨hload, (relations_in_groups.1 _ _ hload).2.symm⟩

end GraphDoc
