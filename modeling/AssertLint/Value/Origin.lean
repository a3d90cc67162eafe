import AssertLint.Scope.Table
import AssertLint.Value.Access

/-!
# Where values come from

The origin of an expression is found by following it back: a name to what it is
initialized with, a call to what is called, a construction to its constructor,
a member access to its object, parentheses to their content.  A name is followed
once, so a circle of initializers ends at a name.  The origin tells whether the
value can be a regular expression.
-/

namespace AssertLint

/-- What the value of an expression is, as far as its origin tells. -/
inductive RegexClass where
  | regex
  | notRegex
  | unknown
  deriving DecidableEq, Repr, Inhabited

namespace RegexClass

/-- The name of the class. -/
def name : RegexClass → String
  | regex => "Regex"
  | notRegex => "NotRegex"
  | unknown => "Unknown"

end RegexClass

namespace ScopeTable

/-- The initializer of the last definition of the variable that a name means. -/
def initializer? (table : ScopeTable) (identifier : Cursor) : Option Cursor := do
  let reference ← table.reference? identifier
  let id ← reference.resolved
  let found ← table.entries[id]?
  let definition ← (table.definitionsOf found).getLast?
  definition.initializer?

/-- The expression that the value of an expression is taken from. -/
def source? (table : ScopeTable) (cursor : Cursor) : Option Cursor :=
  match cursor.kind with
  | .identifier => table.initializer? cursor
  | .callExpression => cursor.field? .callee
  | .newExpression => cursor.field? .constructorPart
  | .memberExpression => cursor.field? .object
  | .parenthesizedExpression => cursor.firstContent?
  | _ => none

/-- A place in the search for an origin: the expression reached, and the names
followed on the way. -/
structure Trail where
  cursor : Cursor
  followed : List Address

/-- The next place of the search.  A name that has been followed is not followed
again. -/
def follow? (table : ScopeTable) (trail : Trail) : Option Trail :=
  if trail.cursor.kind = .identifier then
    if trail.followed.contains trail.cursor.address then
      none
    else
      (table.source? trail.cursor).map (⟨·, trail.cursor.address :: trail.followed⟩)
  else
    (table.source? trail.cursor).map (⟨·, trail.followed⟩)

/-- More steps than a search in the tree around a node can take: it goes down at
most all nodes before it follows another name. -/
def searchBound (cursor : Cursor) : Nat :=
  let nodes := (cursor.selfAndAncestors.getLast?.getD cursor).node.size
  (nodes + 1) * (nodes + 1)

/-- The origin of the value of an expression. -/
def origin (table : ScopeTable) (cursor : Cursor) : Cursor :=
  (chainEnd table.follow? (searchBound cursor) ⟨cursor, []⟩).cursor

/-- The name of the constructor of regular expressions. -/
def regexConstructor : String := "RegExp"

/-- The class of a value with a given origin. -/
def classOfOrigin (table : ScopeTable) (origin : Cursor) : RegexClass :=
  if origin.kind = .regexLiteral then
    .regex
  else if origin.kind = .identifier ∧ table.text origin = regexConstructor then
    .regex
  else if origin.kind.isLiteral then
    .notRegex
  else
    .unknown

/-- The class of an expression. -/
def classify (table : ScopeTable) (cursor : Cursor) : RegexClass :=
  let content := cursor.withoutParentheses
  if content.kind = .regexLiteral then
    .regex
  else
    table.classOfOrigin (table.origin content)

/-- The class of an expression that may be missing. -/
def classify? (table : ScopeTable) : Option Cursor → RegexClass
  | some cursor => table.classify cursor
  | none => .notRegex

/-- Whether an expression is known to be a regular expression. -/
def isRegex (table : ScopeTable) (cursor : Cursor) : Bool :=
  table.classify cursor = .regex

end ScopeTable

end AssertLint
