import AssertLint.Tree.Node

/-!
# The names that a pattern binds

A name is bound where a pattern hands it a value.  Names in default values, in
keys and in the objects of member accesses are used there, not bound.
-/

namespace AssertLint

/-- The children of a pattern in which it binds names. -/
inductive PatternPart where
  | contents
  | firstContent
  | inField (field : Field)
  deriving DecidableEq, Repr

namespace PatternPart

/-- Whether names are bound in a child. -/
def holds (part : PatternPart) (node : Node) : Bool :=
  match part with
  | contents | firstContent => node.kind.isNamed && decide (node.kind ≠ .comment)
  | inField field => decide (node.field = some field)

/-- Whether names may be bound in several children. -/
def goesOn : PatternPart → Bool
  | contents => true
  | firstContent => false
  | inField _ => false

end PatternPart

namespace Kind

/-- The children in which a pattern binds names, for the kinds of patterns that
have parts. -/
def patternPart? : Kind → Option PatternPart
  | objectPattern | arrayPattern => some .contents
  | assignmentPattern | objectAssignmentPattern => some (.inField .left)
  | pairPattern => some (.inField .value)
  | restPattern => some .firstContent
  | _ => none

/-- The kinds of nodes that are bound names when they stand in a pattern. -/
def isBoundName : Kind → Bool
  | identifier | shorthandPropertyIdentifierPattern => true
  | _ => false

end Kind

namespace Cursor

mutual

/-- The names that a pattern binds, in order, given the way up from it. -/
def boundNamesOf (ascents : List Ascent) : Node → List Cursor
  | ⟨kind, field, span, children⟩ =>
      if kind.isBoundName then
        [⟨⟨kind, field, span, children⟩, ascents⟩]
      else
        match kind.patternPart? with
        | some part => boundNamesAmong part ⟨kind, field, span, children⟩ ascents 0 children
        | none => []

/-- The names that are bound in the children of `parent` from an index on. -/
def boundNamesAmong (part : PatternPart) (parent : Node) (ascents : List Ascent)
    (index : Nat) : List Node → List Cursor
  | [] => []
  | node :: rest =>
      if part.holds node then
        boundNamesOf (⟨parent, index⟩ :: ascents) node ++
          (if part.goesOn then boundNamesAmong part parent ascents (index + 1) rest else [])
      else
        boundNamesAmong part parent ascents (index + 1) rest

end

/-- The names that a pattern binds, in the order of the source. -/
def boundNames (pattern : Cursor) : List Cursor :=
  boundNamesOf pattern.ascents pattern.node

end Cursor

end AssertLint
