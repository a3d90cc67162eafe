import AssertLint.Query.Pattern

/-!
# Reading queries

A query is a sequence of descriptions in parentheses.  A description is the kind
of a node, or an underscore for any, followed by the descriptions of children,
which may be tied to a field.  Brackets hold alternatives, an at sign in front
of a name makes a capture, a condition starts with a hash sign, and a semicolon
starts a comment.
-/

namespace AssertLint

namespace Query

/-- The text still to be read, its offset, and the captures named so far. -/
structure ReaderState where
  rest : List Char
  offset : Nat
  captures : List String

/-- A reader of a part of a query. -/
abbrev Reader := StateT ReaderState (Except Fault)

namespace Reader

/-- The next character. -/
def next : Reader (Option Char) := return (← get).rest.head?

/-- The offset of the next character. -/
def here : Reader Nat := return (← get).offset

/-- Fails because the text cannot be read on. -/
def stuck {α : Type} : Reader α := do
  throw (.unreadable (← here))

/-- Takes a number of characters. -/
def advance (count : Nat) : Reader Unit :=
  modify fun state =>
    { state with
      rest := state.rest.drop count
      offset := state.offset + Source.byteLength (state.rest.take count) }

/-- The number of blanks and characters of comments at the front of a text.  The
flag says that a comment is open. -/
def gapLength : Bool → List Char → Nat
  | _, [] => 0
  | true, character :: rest => gapLength (character ≠ '\n') rest + 1
  | false, character :: rest =>
      if character = ';' then gapLength true rest + 1
      else if character = ' ' || ('\t' ≤ character && character ≤ '\r') then
        gapLength false rest + 1
      else 0

/-- Takes blanks and comments. -/
def skipGap : Reader Unit := do
  advance (gapLength false (← get).rest)

/-- Whether a name can start with a character. -/
def startsName (character : Char) : Bool :=
  character.isAlphanum || character = '_' || character = '-'

/-- Takes a name. -/
def takeName : Reader String := do
  let name := (← get).rest.takeWhile fun character => startsName character || character = '.'
  advance name.length
  return String.ofList name

/-- Whether the next character can start a name. -/
def atName : Reader Bool := return ((← next).map startsName).getD false

/-- The characters of a quoted text up to its closing quote, and their number
with the quote. -/
def quotedText : List Char → Option (List Char × Nat)
  | [] => none
  | '\x22' :: _ => some ([], 1)
  | '\n' :: _ => none
  | '\\' :: character :: rest =>
      let meant :=
        match character with
        | 'n' => '\n'
        | 'r' => '\r'
        | 't' => '\t'
        | '0' => '\x00'
        | other => other
      (quotedText rest).map fun (text, length) => (meant :: text, length + 2)
  | '\\' :: [] => none
  | character :: rest =>
      (quotedText rest).map fun (text, length) => (character :: text, length + 1)

/-- Takes the name of a capture behind its at sign. -/
def takeCapture : Reader String := do
  advance 1
  if ← atName then
    takeName
  else
    stuck

/-- Takes the arguments of a condition and its closing parenthesis. -/
def takeArguments : Nat → Reader (List Argument)
  | 0 => stuck
  | bound + 1 => do
      match ← next with
      | some ')' =>
          advance 1
          skipGap
          return []
      | some '@' =>
          let offset ← here
          let name ← takeCapture
          if !(← get).captures.contains name then
            throw (.unknownCapture (offset + 1))
          skipGap
          return .capture name :: (← takeArguments bound)
      | some '\x22' =>
          match quotedText ((← get).rest.drop 1) with
          | some (text, length) =>
              advance (length + 1)
              skipGap
              return .text (String.ofList text) :: (← takeArguments bound)
          | none => stuck
      | _ =>
          if ← atName then
            let name ← takeName
            skipGap
            return .text name :: (← takeArguments bound)
          else
            stuck

/-- Takes a condition behind its hash sign. -/
def takePredicate (bound : Nat) : Reader Predicate := do
  if !(← atName) then
    stuck
  let name ← takeName
  match ← next with
  | some mark =>
      if mark = '?' || mark = '!' then
        advance 1
        skipGap
        return ⟨name ++ mark.toString, ← takeArguments bound⟩
      else
        stuck
  | none => stuck

/-- Takes the captures behind a description. -/
def takeCaptures : Nat → Option Pattern → Reader (Option Pattern)
  | 0, _ => stuck
  | bound + 1, pattern => do
      match ← next with
      | some '@' =>
          let name ← takeCapture
          skipGap
          modify fun state =>
            { state with
              captures :=
                if state.captures.contains name then state.captures
                else state.captures ++ [name] }
          takeCaptures bound (pattern.map (Pattern.capturing name))
      | _ => return pattern

/-- What a part of a query holds: descriptions and conditions. -/
structure Part where
  patterns : List Pattern
  predicates : List Predicate

namespace Part

/-- The descriptions and conditions of two parts. -/
def append (first second : Part) : Part :=
  ⟨first.patterns ++ second.patterns, first.predicates ++ second.predicates⟩

end Part

/-- Takes parts up to and with a closing sign.  The other closing sign is out of
place. -/
def takeParts (closing : Char) (part : Reader Part) : Nat → Reader Part
  | 0 => stuck
  | bound + 1 => do
      match ← next with
      | some character =>
          if character = closing then
            advance 1
            return ⟨[], []⟩
          else if character = ')' || character = ']' then
            stuck
          else
            let first ← part
            return first.append (← takeParts closing part bound)
      | none => stuck

/-- Takes a description by the kind of its node, behind the opening
parenthesis. -/
def takeNode (part : Reader Part) (bound offset : Nat) : Reader Part := do
  if !(← atName) then
    stuck
  let nameOffset ← here
  let name ← takeName
  let kind ←
    if name == "_" then
      pure none
    else
      match Kind.ofName? name with
      | some kind => pure (some kind)
      | none => throw (.unknownKind nameOffset)
  skipGap
  let children ← takeParts ')' part bound
  return ⟨[.node kind none children.patterns [] offset], children.predicates⟩

/-- Takes a description in a field. -/
def takeFieldPart (part : Reader Part) : Reader Part := do
  let offset ← here
  let name ← takeName
  skipGap
  if (← next) ≠ some ':' then
    throw (.unreadable offset)
  advance 1
  skipGap
  match ← next with
  | some ')' | some ']' | none => stuck
  | some _ =>
      let inner ← part
      match Field.ofName? name with
      | some field => return { inner with patterns := inner.patterns.map (.inField field) }
      | none => throw (.unknownField offset)

/-- Takes a description without its captures, or a condition. -/
def takeBare (part : Reader Part) (bound : Nat) : Reader (Part × Bool) := do
  let offset ← here
  match ← next with
  | some '[' =>
      advance 1
      skipGap
      let alternatives ← takeParts ']' part bound
      if alternatives.patterns.isEmpty then
        throw (.unreadable ((← here) - 1))
      return (⟨[.oneOf none alternatives.patterns [] offset], alternatives.predicates⟩, true)
  | some '(' =>
      advance 1
      skipGap
      match ← next with
      | some '(' | some '[' => return (← takeParts ')' part bound, true)
      | some '#' | some '.' =>
          advance 1
          return (⟨[], [← takePredicate bound]⟩, false)
      | _ => return (← takeNode part bound offset, true)
  | some '_' =>
      let _ ← takeName
      return (⟨[.node none none [] [] offset], []⟩, true)
  | _ =>
      if ← atName then
        return (← takeFieldPart part, true)
      else
        stuck

/-- Takes a description with its captures, or a condition.  The number bounds
the nesting. -/
def takePart : Nat → Reader Part
  | 0 => stuck
  | bound + 1 => do
      let (part, isDescription) ← takeBare (takePart bound) bound
      if isDescription then
        skipGap
        match part.patterns with
        | [] =>
            let _ ← takeCaptures bound none
            return part
        | first :: others =>
            match ← takeCaptures bound (some first) with
            | some captured => return { part with patterns := captured :: others }
            | none => return part
      else
        return part

/-- Takes the clauses of a query up to the end of its text. -/
def takeClauses (depth : Nat) : Nat → Reader (List Clause)
  | 0 => stuck
  | bound + 1 => do
      match ← next with
      | none => return []
      | some _ =>
          let offset ← here
          let part ← takePart depth
          match part.patterns with
          | [] => return ⟨none, part.predicates, offset⟩ :: (← takeClauses depth bound)
          | [pattern] =>
              return ⟨some pattern, part.predicates, offset⟩ :: (← takeClauses depth bound)
          | _ :: second :: _ => throw (.unreadable second.offset)

end Reader

namespace Pattern

mutual

/-- The first description that no node can meet: one of a child of a node that
is a single word. -/
def firstImpossible? : Pattern → Option Nat
  | node kind _ children _ _ =>
      match children with
      | [] => none
      | first :: _ =>
          if (kind.map Kind.isLeaf).getD false then
            some first.offset
          else
            firstImpossibleAmong? children
  | oneOf _ alternatives _ _ => firstImpossibleAmong? alternatives

/-- The first of several descriptions that no node can meet. -/
def firstImpossibleAmong? : List Pattern → Option Nat
  | [] => none
  | pattern :: rest =>
      match firstImpossible? pattern with
      | some offset => some offset
      | none => firstImpossibleAmong? rest

end

end Pattern

namespace Predicate

/-- The problem that a condition has the wrong number of arguments. -/
def wrongCount (predicate : Predicate) : String :=
  "Wrong number of arguments to #" ++ predicate.name ++ " predicate. Expected 2, got " ++
    toString predicate.arguments.length ++ "."

/-- The problem that a condition does not start with a capture. -/
def notACapture (predicate : Predicate) (text : String) : String :=
  "First argument to #" ++ predicate.name ++
    " predicate must be a capture name. Got literal \"" ++ text ++ "\"."

/-- The problem that the pattern of a condition is a capture. -/
def notALiteral (predicate : Predicate) (capture : String) : String :=
  "Second argument to #" ++ predicate.name ++ " predicate must be a literal. Got capture @" ++
    capture ++ "."

/-- The meaning of a condition.  Conditions with unknown names have none. -/
def meaning (predicate : Predicate) : Except String (List Condition) :=
  if predicate.name = "eq?" then
    match predicate.arguments with
    | [.capture first, .capture second] => .ok [.sameText first second]
    | [.capture first, .text text] => .ok [.hasText first text]
    | [.text text, _] => .error (predicate.notACapture text)
    | _ => .error predicate.wrongCount
  else if predicate.name = "match?" then
    match predicate.arguments with
    | [.capture first, .text text] =>
        match TextPattern.ofString? text with
        | some pattern => .ok [.matchesPattern first pattern]
        | none => .error ("Invalid regex '" ++ text ++ "'")
    | [.capture _, .capture second] => .error (predicate.notALiteral second)
    | [.text text, _] => .error (predicate.notACapture text)
    | _ => .error predicate.wrongCount
  else
    .ok []

end Predicate

namespace Clause

/-- The conditions of a clause. -/
def conditions (clause : Clause) : Except Fault (List Condition) :=
  match clause.predicates.mapM Predicate.meaning with
  | .ok conditions => .ok conditions.flatten
  | .error problem => .error (.badCondition clause.offset problem)

end Clause

end Query

namespace Query

/-- The query that characters spell.  Faults of the text come before descriptions
that cannot be met, and these before faults of the conditions. -/
def ofCharacters (characters : List Char) : Except Fault Query := do
  let bound := 2 * characters.length + 2
  let reader : Reader (List Clause) := do
    Reader.skipGap
    Reader.takeClauses bound bound
  let (clauses, state) ← reader.run ⟨characters, 0, []⟩
  match clauses.findSome? fun clause => clause.pattern.bind Pattern.firstImpossible? with
  | some offset => throw (.impossible offset)
  | none =>
      let described ← clauses.mapM fun clause => do
        return (clause.pattern, ← clause.conditions)
      return ⟨described, state.captures⟩

/-- The query that a text spells. -/
def compile (text : String) : Except Fault Query := ofCharacters text.toList

end Query

end AssertLint
