import AssertLint.Query.Pattern

/-!
# Matching queries

A description is met by a node in as many ways as there are choices of children
that meet the descriptions below it.  Every way yields the captured nodes, and
the conditions decide whether it counts.
-/

namespace AssertLint

namespace Query

/-- The nodes captured by one way to meet a description. -/
abbrev Captures := List (String × Cursor)

/-- The elements of a list, each with those behind it. -/
def withFollowing {α : Type} : List α → List (α × List α)
  | [] => []
  | entry :: rest => (entry, rest) :: withFollowing rest

/-- Whether a node stands in a field, if one is asked for. -/
def standsIn (field : Option Field) (cursor : Cursor) : Bool :=
  match field with
  | some field => cursor.node.field = some field
  | none => true

/-- Whether a named node has a kind, if one is asked for. -/
def isOfKind (kind : Option Kind) (cursor : Cursor) : Bool :=
  match kind with
  | some kind => cursor.kind = kind
  | none => cursor.isNamed

namespace Pattern

mutual

/-- The ways in which a node meets a description. -/
def waysAt : Pattern → Cursor → List Captures
  | node kind field children captures _, cursor =>
      if isOfKind kind cursor && standsIn field cursor then
        (waysAmong children cursor.namedChildren).map ((captures.map (·, cursor)) ++ ·)
      else
        []
  | oneOf field alternatives captures _, cursor =>
      if standsIn field cursor then
        (waysOfSome alternatives cursor).map ((captures.map (·, cursor)) ++ ·)
      else
        []

/-- The ways in which some of the given nodes meet descriptions, in order. -/
def waysAmong : List Pattern → List Cursor → List Captures
  | [], _ => [[]]
  | pattern :: rest, candidates =>
      (withFollowing candidates).flatMap fun (candidate, following) =>
        (waysAt pattern candidate).flatMap fun captured =>
          (waysAmong rest following).map (captured ++ ·)

/-- The ways in which a node meets one of several descriptions. -/
def waysOfSome : List Pattern → Cursor → List Captures
  | [], _ => []
  | pattern :: rest, cursor => waysAt pattern cursor ++ waysOfSome rest cursor

end

end Pattern

/-- The texts of the nodes captured under a name. -/
def capturedTexts (source : Source) (captured : Captures) (name : String) : List String :=
  (captured.filter (·.1 = name)).map (·.2.text source)

/-- Whether a condition holds for captured nodes. -/
def Condition.holds (source : Source) (captured : Captures) : Condition → Bool
  | sameText first second =>
      ((capturedTexts source captured first).zip (capturedTexts source captured second)).all
        fun texts => texts.1 = texts.2
  | hasText capture text => (capturedTexts source captured capture).all (· = text)
  | matchesPattern capture pattern =>
      (capturedTexts source captured capture).all pattern.matchesText

/-- The nodes captured under a name, once for every way to meet a description of
the query. -/
def capturedNodes (query : Query) (source : Source) (tree : Node) (name : String) :
    List Cursor :=
  tree.cursors.flatMap fun cursor =>
    query.clauses.flatMap fun (pattern, conditions) =>
      match pattern with
      | some pattern =>
          ((pattern.waysAt cursor).filter fun captured =>
            conditions.all (Condition.holds source captured)).flatMap fun captured =>
              (captured.filter (·.1 = name)).map (·.2)
      | none => []

end Query

end AssertLint
