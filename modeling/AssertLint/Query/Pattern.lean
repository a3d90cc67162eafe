import AssertLint.Query.TextPattern
import AssertLint.Tree.Node

/-!
# Queries

A query describes nodes by their kinds, their fields and the nodes below them,
and gives names to some of the nodes it describes: the captures.  Conditions on
the texts of captures narrow a query further.
-/

namespace AssertLint

namespace Query

/-- The description of a node.  Without a kind it describes every named node.
The descriptions of children have to be met by some of the children, in
order. -/
inductive Pattern where
  | node (kind : Option Kind) (field : Option Field) (children : List Pattern)
      (captures : List String) (offset : Nat)
  /-- A node that meets one of several descriptions. -/
  | oneOf (field : Option Field) (alternatives : List Pattern) (captures : List String)
      (offset : Nat)
  deriving Inhabited

namespace Pattern

/-- The place of the description in the text of the query. -/
def offset : Pattern → Nat
  | node _ _ _ _ offset => offset
  | oneOf _ _ _ offset => offset

/-- The description of a node in a given field. -/
def inField (field : Field) : Pattern → Pattern
  | node kind _ children captures offset => node kind (some field) children captures offset
  | oneOf _ alternatives captures offset => oneOf (some field) alternatives captures offset

/-- The description with one more capture of the node. -/
def capturing (name : String) : Pattern → Pattern
  | node kind field children captures offset =>
      node kind field children (captures ++ [name]) offset
  | oneOf field alternatives captures offset =>
      oneOf field alternatives (captures ++ [name]) offset

mutual

/-- Decides whether two descriptions are equal. -/
def decEq : (first second : Pattern) → Decidable (first = second)
  | node kind field children captures offset, node kind' field' children' captures' offset' =>
      have := decEqList children children'
      decidable_of_iff
        (kind = kind' ∧ field = field' ∧ children = children' ∧ captures = captures' ∧
          offset = offset')
        (by rw [node.injEq])
  | oneOf field alternatives captures offset, oneOf field' alternatives' captures' offset' =>
      have := decEqList alternatives alternatives'
      decidable_of_iff
        (field = field' ∧ alternatives = alternatives' ∧ captures = captures' ∧
          offset = offset')
        (by rw [oneOf.injEq])
  | node _ _ _ _ _, oneOf _ _ _ _ => isFalse (by simp)
  | oneOf _ _ _ _, node _ _ _ _ _ => isFalse (by simp)

/-- Decides whether two lists of descriptions are equal. -/
def decEqList : (first second : List Pattern) → Decidable (first = second)
  | [], [] => isTrue rfl
  | first :: rest, first' :: rest' =>
      have := decEq first first'
      have := decEqList rest rest'
      decidable_of_iff (first = first' ∧ rest = rest') (by rw [List.cons.injEq])
  | [], _ :: _ => isFalse (by simp)
  | _ :: _, [] => isFalse (by simp)

end

instance : DecidableEq Pattern := decEq

end Pattern

/-- An argument of a condition, as it is written. -/
inductive Argument where
  | capture (name : String)
  | text (value : String)
  deriving DecidableEq, Repr

/-- A condition as it is written: a name and arguments. -/
structure Predicate where
  name : String
  arguments : List Argument
  deriving DecidableEq, Repr

/-- A condition on captures. -/
inductive Condition where
  | sameText (first second : String)
  | hasText (capture text : String)
  | matchesPattern (capture : String) (pattern : TextPattern)
  deriving DecidableEq, Repr

/-- A description with its conditions, and its place in the text of the query. -/
structure Clause where
  pattern : Option Pattern
  predicates : List Predicate
  offset : Nat
  deriving Inhabited

/-- Why a text is no query. -/
inductive Fault where
  /-- The text cannot be read on from an offset. -/
  | unreadable (offset : Nat)
  /-- No node has the kind named at an offset. -/
  | unknownKind (offset : Nat)
  /-- No node has the field named at an offset. -/
  | unknownField (offset : Nat)
  /-- A condition names a capture that there is not. -/
  | unknownCapture (offset : Nat)
  /-- No node can meet the description at an offset. -/
  | impossible (offset : Nat)
  /-- A condition of the description at an offset makes no sense. -/
  | badCondition (offset : Nat) (problem : String)
  deriving DecidableEq, Repr

end Query

/-- A query: its descriptions with their conditions, and the names of its
captures in order of first appearance. -/
structure Query where
  clauses : List (Option Query.Pattern × List Query.Condition)
  captureNames : List String
  deriving DecidableEq, Inhabited

end AssertLint
