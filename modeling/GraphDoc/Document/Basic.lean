import GraphDoc.Hash.Sha256
import GraphDoc.Value.Basic

/-!
# GraphDoc.Document.Basic

Request documents: one operation with one root field, the variables that it
declares, and below the root a tree of fields.

A field is a `Node.leaf`, or a `Node.branch` with a selection of fields below
it.  The only values of arguments are variables and numbers, so no value of a
caller ever stands in a document.
-/

namespace GraphDoc

inductive TypeRef where
  | named (name : Text)
  | list (item : TypeRef)
  | nonNull (inner : TypeRef)
  deriving DecidableEq, Repr

inductive ArgumentValue where
  | var (name : Text)
  | int (n : Nat)
  deriving DecidableEq, Repr

structure Argument where
  name : Text
  value : ArgumentValue
  deriving DecidableEq, Repr

/-- The argument that takes the variable of its own name. -/
def Argument.bound (name : Text) : Argument := ⟨name, .var name⟩

structure VariableDefinition where
  name : Text
  type : TypeRef
  deriving DecidableEq, Repr

/-- A requested field. -/
inductive Node where
  | leaf (name : Text) (arguments : List Argument)
  | branch (name : Text) (arguments : List Argument) (children : List Node)
  deriving Repr

namespace Node

def name : Node → Text
  | leaf name _ => name
  | branch name _ _ => name

def arguments : Node → List Argument
  | leaf _ arguments => arguments
  | branch _ arguments _ => arguments

def children : Node → List Node
  | leaf _ _ => []
  | branch _ _ children => children

/-- A field without arguments and without fields below. -/
def plain (name : Text) : Node := leaf name []

end Node

inductive OperationKind where
  | query
  | mutation
  | subscription
  deriving DecidableEq, Repr

namespace OperationKind

def text : OperationKind → String
  | query => "query"
  | mutation => "mutation"
  | subscription => "subscription"

def ofText? (word : Text) : Option OperationKind :=
  [query, mutation, subscription].find? fun k => k.text == word

end OperationKind

structure Document where
  kind : OperationKind
  name : Text
  definitions : List VariableDefinition
  root : Node
  deriving Repr

end GraphDoc
