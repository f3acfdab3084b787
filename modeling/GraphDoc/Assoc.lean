/-!
# GraphDoc.Assoc

Ordered associations: lists of key and value pairs in the order in which the
keys first came.

* `put` keeps the place of a key that is there and appends one that is not.
* `drop` removes a key.
* `keys` is the view that the order laws speak of.
-/

namespace GraphDoc.Assoc

variable {α : Type u} {β : Type v}

def keys (entries : List (α × β)) : List α := entries.map Prod.fst

/-- Sets the value of a key, at its place if it has one and else at the end. -/
def put [BEq α] (entries : List (α × β)) (key : α) (value : β) : List (α × β) :=
  match entries with
  | [] => [(key, value)]
  | (k, v) :: rest => if k == key then (k, value) :: rest else (k, v) :: put rest key value

def drop [BEq α] (entries : List (α × β)) (key : α) : List (α × β) :=
  entries.filter fun entry => !(entry.1 == key)

def has [BEq α] (entries : List (α × β)) (key : α) : Bool :=
  entries.any fun entry => entry.1 == key

/-! ## order -/

/-- Inserts an entry before the first one whose key is greater. -/
def insertSorted (less : α → α → Bool) (entry : α × β) : List (α × β) → List (α × β)
  | [] => [entry]
  | e :: rest => if less entry.1 e.1 then entry :: e :: rest else e :: insertSorted less entry rest

def sorted (less : α → α → Bool) (entries : List (α × β)) : List (α × β) :=
  entries.foldl (fun done entry => insertSorted less entry done) []

/-! ## looking up -/

/-- What a look-up finds is an entry. -/
theorem mem_of_lookup [BEq α] [LawfulBEq α] {entries : List (α × β)} {key : α} {value : β}
    (h : entries.lookup key = some value) : (key, value) ∈ entries := by
  obtain ⟨before, behind, hentries, _⟩ := List.lookup_eq_some_iff.1 h
  rw [hentries]
  exact List.mem_append_right _ List.mem_cons_self

/-! ## the keys after an operation -/

@[simp] theorem keys_nil : keys ([] : List (α × β)) = [] := rfl

@[simp] theorem keys_cons (e : α × β) (rest : List (α × β)) :
    keys (e :: rest) = e.1 :: keys rest := rfl

/-- A key that is there keeps its place. -/
theorem keys_put_of_has [BEq α] (entries : List (α × β)) (key : α) (value : β)
    (h : has entries key = true) : keys (put entries key value) = keys entries := by
  induction entries with
  | nil => simp [has] at h
  | cons e rest ih =>
    obtain ⟨k, v⟩ := e
    by_cases hk : (k == key) = true
    · simp [put, hk]
    · have hr : has rest key = true := by simpa [has, hk] using h
      simp [put, hk, ih hr]

/-- An entry under a new key goes to the end. -/
theorem put_of_not_has [BEq α] (entries : List (α × β)) (key : α) (value : β)
    (h : has entries key = false) : put entries key value = entries ++ [(key, value)] := by
  induction entries with
  | nil => rfl
  | cons e rest ih =>
    obtain ⟨k, v⟩ := e
    have hk : ¬ (k == key) = true := by
      intro hk
      simp [has, hk] at h
    have hr : has rest key = false := by simpa [has, hk] using h
    simp [put, hk, ih hr]

/-- A new key is the last one. -/
theorem keys_put_of_not_has [BEq α] (entries : List (α × β)) (key : α) (value : β)
    (h : has entries key = false) : keys (put entries key value) = keys entries ++ [key] := by
  rw [put_of_not_has entries key value h]
  simp [keys]

end GraphDoc.Assoc
