import AssertLint.Script.Lexeme
import AssertLint.Script.Table
import AssertLint.Text.Source

/-!
# Reading terminals

Which terminal comes next depends on the terminals that may come next: a slash
begins a regular expression where an expression can begin and divides where it
cannot, and a word is a name where its keyword has no place.  A statement may
end without a semicolon where the text behind it could not continue it.
-/

namespace AssertLint

namespace Script

/-- A place in a text: its offset, and the text from there on. -/
structure Place where
  offset : Nat
  rest : List Char
  deriving Inhabited

namespace Place

/-- The place some characters further. -/
def advance (place : Place) (length : Nat) : Place :=
  ⟨place.offset + Source.byteLength (place.rest.take length), place.rest.drop length⟩

/-- The place behind all blanks. -/
def skipBlanks (place : Place) : Place :=
  place.advance (place.rest.takeWhile isBlank).length

end Place

/-- A terminal that was read. -/
structure Token where
  /-- The number of the terminal. -/
  terminal : Nat
  start : Nat
  /-- The place behind the terminal. -/
  stop : Place
  deriving Inhabited

/-- What the search for comments met. -/
inductive Skimmed where
  /-- A slash that begins no comment. -/
  | slash
  /-- A comment within its line, and the text behind it. -/
  | sameLine (rest : List Char)
  /-- Other text.  The flag says that a comment was met before it. -/
  | text (sawComment : Bool) (rest : List Char)

/-- Where the search for comments is. -/
inductive SkimState where
  | between
  | lineComment
  | blockComment

/-- Skips blanks and comments.  Unless it goes `through`, the search stops
behind the first comment that is closed by a sign. -/
def skim (through : Bool) :
    SkimState → (sawComment sawBreak : Bool) → List Char → Skimmed
  | _, sawComment, _, [] => .text sawComment []
  | .between, _, sawBreak, '/' :: '/' :: rest => skim through .lineComment true sawBreak rest
  | .between, sawComment, sawBreak, '/' :: '*' :: rest =>
      skim through .blockComment sawComment sawBreak rest
  | .between, _, _, '/' :: _ => .slash
  | .between, sawComment, sawBreak, character :: rest =>
      if isPlainBlank character then skim through .between sawComment sawBreak rest
      else .text sawComment (character :: rest)
  | .lineComment, sawComment, sawBreak, character :: rest =>
      if character = '\n' then skim through .between sawComment sawBreak rest
      else if isLineBreak character then .text sawComment (character :: rest)
      else skim through .lineComment sawComment sawBreak rest
  | .blockComment, _, sawBreak, '*' :: '/' :: rest =>
      if !through && rest.head? ≠ some '/' then
        if sawBreak then .text true rest else .sameLine rest
      else
        skim through .between true sawBreak rest
  | .blockComment, sawComment, sawBreak, character :: rest =>
      skim through .blockComment sawComment (sawBreak || isLineBreak character) rest

/-- Whether a line that begins with a text cannot continue a statement. -/
def beginsStatement : List Char → Bool
  | '.' :: rest => (rest.head?.map Char.isDigit).getD false
  | '+' :: rest => rest.head? = some '+'
  | '-' :: rest => rest.head? = some '-'
  | '!' :: rest => rest.head? ≠ some '='
  | 'i' :: 'n' :: rest =>
      if (rest.head?.map Char.isAlpha).getD false then
        !("stanceof".toList.isPrefixOf rest &&
          !((rest.drop 8).head?.map Char.isAlpha).getD false)
      else
        false
  | character :: _ => !"\x60,:;*%><=[(?^|&/".toList.contains character
  | [] => true

/-- What the search for the end of a statement found: whether it ends, and, if
it does not, whether a conditional expression may go on. -/
inductive EndSearch where
  | ends
  | continues (mayBeConditional : Bool)
  deriving DecidableEq, Repr

namespace EndSearch

/-- The search has met text that continues the statement. -/
def metText (sawComment : Bool) (characters : List Char) : EndSearch :=
  .continues (!sawComment && characters.head? = some '?')

/-- The search behind the end of the line. -/
def onNextLine (sawComment : Bool) (characters : List Char) : EndSearch :=
  match skim true .between sawComment false characters with
  | .slash => .continues false
  | .sameLine _ => .continues false
  | .text sawComment rest =>
      if beginsStatement rest then .ends else metText sawComment rest

/-- The search at a character that begins no comment. -/
def atCharacter (onward : List Char → EndSearch) (sawComment : Bool) : List Char → EndSearch
  | [] => metText sawComment []
  | character :: rest =>
      if character = '}' then .ends
      else if isLineBreak character then onNextLine sawComment rest
      else if isPlainBlank character then onward rest
      else metText sawComment (character :: rest)

/-- Whether a statement ends here without a semicolon.  It does at the end of
the text, before a closing brace, and at the end of a line when the next line
cannot continue it.  If `commentsEnd`, it also ends before a comment that
reaches into another line. -/
def run (commentsEnd : Bool) : (bound : Nat) → (sawComment : Bool) → List Char → EndSearch
  | 0, _, _ => .continues false
  | _, _, [] => .ends
  | bound + 1, sawComment, '/' :: rest =>
      match skim false .between sawComment false ('/' :: rest) with
      | .slash => .continues false
      | .sameLine behind => atCharacter (run commentsEnd bound true) true behind
      | .text sawComment behind =>
          if commentsEnd && behind.head? ≠ some ',' && behind.head? ≠ some '=' then .ends
          else atCharacter (run commentsEnd bound sawComment) sawComment behind
  | bound + 1, sawComment, characters =>
      atCharacter (run commentsEnd bound sawComment) sawComment characters

end EndSearch

namespace Table

/-- Whether a terminal may come next. -/
def allows (table : Table) (allowed : TerminalSet) (terminal : Terminal) : Bool :=
  allowed.contains (table.vocabulary.terminal terminal)

/-- A terminal of some characters at a place. -/
def tokenAt (table : Table) (terminal : Terminal) (place : Place) (length : Nat) : Token :=
  ⟨table.vocabulary.terminal terminal, place.offset, place.advance length⟩

/-- A terminal of some characters at a place, unless there are none. -/
def tokenAt? (table : Table) (terminal : Terminal) (place : Place) (length : Nat) :
    Option Token :=
  if length = 0 then none else some (table.tokenAt terminal place length)

/-- The question mark of a conditional expression.  The signs of a default and
of an optional access are none, but a number may follow that begins with its
point. -/
def conditionalMark? (table : Table) (place : Place) : Option Token :=
  match place.rest with
  | '?' :: '?' :: _ => none
  | '?' :: '.' :: rest =>
      if (rest.head?.map Char.isDigit).getD false then
        some (table.tokenAt .conditionalMark place 1)
      else
        none
  | '?' :: _ => some (table.tokenAt .conditionalMark place 1)
  | _ => none

/-- A comment in the style of markup, up to the end of its line. -/
def htmlComment? (table : Table) (place : Place) : Option Token :=
  let isSkipped (character : Char) : Bool := isPlainBlank character || isLineBreak character
  let start := place.advance (place.rest.takeWhile isSkipped).length
  if "<!--".toList.isPrefixOf start.rest || "-->".toList.isPrefixOf start.rest then
    some (table.tokenAt .htmlComment start (start.rest.takeWhile (!isLineBreak ·)).length)
  else
    none

/-- The terminals that depend on more than the characters of which they
consist. -/
def contextual? (table : Table) (allowed : TerminalSet) (place : Place) : Option Token :=
  let allows := table.allows allowed
  if allows .templateText then
    let length := Lexeme.templateText place.rest
    if allows .lineEnd || (place.rest.drop length).isEmpty then none
    else table.tokenAt? .templateText place length
  else if allows .lineEnd then
    match EndSearch.run (!allows (.sign "||")) (place.rest.length + 1) false place.rest with
    | .ends => some (table.tokenAt .lineEnd place 0)
    | .continues true =>
        if allows .conditionalMark then
          let isSkipped (character : Char) : Bool :=
            isPlainBlank character || isLineBreak character
          table.conditionalMark? (place.advance (place.rest.takeWhile isSkipped).length)
        else
          none
    | .continues false => none
  else if allows .conditionalMark then
    table.conditionalMark? (place.advance (place.rest.takeWhile isPlainBlank).length)
  else if allows (.sign "||") || allows .escape || allows .regexPattern then
    none
  else
    table.htmlComment? place

/-- The terminals that stand directly behind the terminal before them. -/
def adjoining? (table : Table) (allowed : TerminalSet) (place : Place) : Option Token :=
  let allows := table.allows allowed
  let isPlain (quote : Char) (character : Char) : Bool :=
    character ≠ quote && character ≠ '\\' && character ≠ '\n' && character ≠ '\r'
  let quoted (terminal : Terminal) (quote : Char) : Option Token :=
    if allows terminal then
      table.tokenAt? terminal place (place.rest.takeWhile (isPlain quote)).length
    else
      none
  let escape : Option Token :=
    if allows .escape then table.tokenAt? .escape place (Lexeme.escape place.rest) else none
  let regexPattern : Option Token :=
    if allows .regexPattern then
      let blanks := (place.rest.takeWhile isBlank).length
      match Lexeme.comment (place.rest.drop blanks) with
      | 0 => table.tokenAt? .regexPattern place (Lexeme.regexPattern false false place.rest)
      | length => some (table.tokenAt .comment place (blanks + length))
    else
      none
  let regexEnd : Option Token :=
    if allows .regexEnd && place.rest.head? = some '/' then
      some (table.tokenAt .regexEnd place 1)
    else
      none
  let regexFlags : Option Token :=
    if allows .regexFlags then
      table.tokenAt? .regexFlags place (place.rest.takeWhile isSmallLetter).length
    else
      none
  [quoted .doubleQuotedText '\x22', quoted .singleQuotedText '\x27', escape, regexPattern,
    regexEnd, regexFlags].findSome? id

/-- The longest sign that may come next. -/
def sign? (table : Table) (allowed : TerminalSet) (characters : List Char) :
    Option (Nat × Nat) :=
  table.signs.foldl
    (fun best (spelling, number) =>
      if allowed.contains number && spelling.isPrefixOf characters &&
          ((best.map Prod.snd).getD 0) < spelling.length then
        some (number, spelling.length)
      else
        best)
    none

/-- The terminal that a word is: its keyword where that may come next, and
otherwise a name. -/
def wordTerminal (table : Table) (allowed : TerminalSet) (spelling : String) : Nat :=
  let name := table.vocabulary.terminal .identifier
  match table.vocabulary.number? (.terminal (.word spelling)) with
  | some number => if allowed.contains number then number else name
  | none => name

/-- The longest terminal that may come next at a place where a terminal
begins. -/
def longest? (table : Table) (allowed : TerminalSet) (place : Place) : Option Token :=
  let sized (terminal : Terminal) (length : Nat) : Nat × Nat :=
    if table.allows allowed terminal then (table.vocabulary.terminal terminal, length)
    else (0, 0)
  let word :=
    let length := Lexeme.name place.rest
    (table.wordTerminal allowed (String.ofList (place.rest.take length)), length)
  let hashBang :=
    if "#!".toList.isPrefixOf place.rest then
      (place.rest.takeWhile (· ≠ '\n')).length
    else
      0
  let comment := (table.vocabulary.terminal .comment, Lexeme.comment place.rest)
  let candidates :=
    [comment, (table.sign? allowed place.rest).getD (0, 0),
      sized .staticGetter (Lexeme.staticGetter place.rest),
      sized .hashBang hashBang, sized .number (Lexeme.number place.rest), word,
      sized .privateName (Lexeme.privateName place.rest)]
  let best := candidates.foldl
    (fun best candidate => if best.2 < candidate.2 then candidate else best) (0, 0)
  if best.2 = 0 then none
  else some ⟨best.1, place.offset, place.advance best.2⟩

/-- The terminal that comes next, given those that may. -/
def scan? (table : Table) (allowed : TerminalSet) (place : Place) : Option Token :=
  let plain : Option Token :=
    let start := place.skipBlanks
    if start.rest.isEmpty then some (table.tokenAt .finish start 0)
    else table.longest? allowed start
  (table.contextual? allowed place).or ((table.adjoining? allowed place).or plain)

end Table

end Script

end AssertLint
