import GraphDoc.Assoc
import GraphDoc.Number.Binary64
import GraphDoc.Text.Basic

/-!
# GraphDoc.Value.Basic

Values as callers hand them over: the data of a JSON text, with members in the
order in which they were written, and one marker more, `missing`, for an entry
that was never filled in.

* `Value.truthy` says which values count as given.
* `Value.same` compares by what a value stands for: numbers by quantity, where
  the truth values count as one and zero, and objects without regard to order.
-/

namespace GraphDoc

/-- A value handed over by a caller. -/
inductive Value where
  | null
  | missing
  | bool (b : Bool)
  | int (n : Int)
  | float (x : Binary64)
  | str (t : Text)
  | arr (items : List Value)
  | obj (members : List (Text × Value))
  deriving Inhabited, Repr

/-- The members of an object, in order. -/
abbrev Members := List (Text × Value)

namespace Value

/-! ## presence -/

/-- Whether a value counts as given: nothing, zero and what is empty do not. -/
def truthy : Value → Bool
  | null => false
  | missing => true
  | bool b => b
  | int n => n != 0
  | float x => !x.isZero
  | str t => !t.isEmpty
  | arr items => !items.isEmpty
  | obj members => !members.isEmpty

/-- The value of an option, `null` for an absent one. -/
def ofOption (v : Option Value) : Value := v.getD null

/-- `fallback` in place of a value that does not count as given. -/
def orElse (v fallback : Value) : Value := if v.truthy then v else fallback

def isNull : Value → Bool
  | null => true
  | _ => false

def ofTexts (ts : List Text) : Value := arr (ts.map str)

/-! ## equality -/

/-- What a number counts. -/
inductive Quantity where
  | ratio (num : Int) (den : Nat)
  | infinite (negative : Bool)
  | undefined

/-- Whether two quantities agree, quotients by cross multiplication. -/
def Quantity.same : Quantity → Quantity → Bool
  | ratio n d, ratio n' d' => n * d' == n' * d
  | infinite s, infinite s' => s == s'
  | undefined, undefined => true
  | _, _ => false

/-- The quantity of a number or of a truth value. -/
def quantity? : Value → Option Quantity
  | bool b => some (.ratio (if b then 1 else 0) 1)
  | int n => some (.ratio n 1)
  | float (.infinite negative) => some (.infinite negative)
  | float .nan => some .undefined
  | float x => x.toRatio?.map fun r => .ratio r.1 r.2
  | _ => none

/-- Whether two values without parts stand for the same. -/
def sameScalar : Value → Value → Bool
  | null, null => true
  | missing, missing => true
  | str t, str u => t == u
  | v, w =>
    match v.quantity?, w.quantity? with
    | some q, some q' => q.same q'
    | _, _ => false

mutual
/-- Whether two values stand for the same: lists item by item, objects key by
key. -/
def same : Value → Value → Bool
  | arr items, w =>
    match w with
    | arr items' => sameItems items items'
    | _ => false
  | obj members, w =>
    match w with
    | obj members' => members.length == members'.length && sameMembers members members'
    | _ => false
  | v, w => sameScalar v w

def sameItems : List Value → List Value → Bool
  | [], ws => ws.isEmpty
  | v :: vs, ws =>
    match ws with
    | w :: ws' => same v w && sameItems vs ws'
    | [] => false

/-- Whether every member is also one of the others. -/
def sameMembers : List (Text × Value) → List (Text × Value) → Bool
  | [], _ => true
  | (k, v) :: rest, others =>
    match others.lookup k with
    | some w => same v w && sameMembers rest others
    | none => false
end

/-- Equality of two values as wholes.  It differs from `same` in one respect:
an undefined number equals nothing, itself included. -/
def equals (v w : Value) : Bool :=
  match v, w with
  | float .nan, _ => false
  | _, _ => same v w

/-! ## members -/

/-- The member of an object; nothing for a value that is no object. -/
def member? (v : Value) (key : Text) : Option Value :=
  match v with
  | obj members => members.lookup key
  | _ => none

end Value

end GraphDoc
