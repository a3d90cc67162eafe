/-!
# Patterns for texts

A query may ask that the text of a node matches a pattern.  Patterns are made
of characters, classes of characters, groups, alternatives, repetitions and the
two ends of the text, and match anywhere in the text.
-/

namespace AssertLint

/-- A pattern for texts. -/
inductive TextPattern where
  | empty
  | textStart
  | textEnd
  /-- One character inside, or outside, some ranges. -/
  | oneOf (outside : Bool) (ranges : List (Char × Char))
  | sequence (first second : TextPattern)
  | either (first second : TextPattern)
  | repeated (pattern : TextPattern)
  deriving DecidableEq, Repr

namespace TextPattern

/-- Whether a character is in one of some ranges. -/
def inRanges (ranges : List (Char × Char)) (character : Char) : Bool :=
  ranges.any fun range => range.1 ≤ character && character ≤ range.2

/-- What can be left of a text after any number of steps, each of which takes
something off its front. -/
def afterSteps (step : List Char → List (List Char)) : Nat → List Char → List (List Char)
  | 0, text => [text]
  | bound + 1, text =>
      text ::
        ((step text).filter (·.length < text.length)).flatMap (afterSteps step bound)

/-- What can be left of a text after the pattern has taken its part off the
front.  The length is that of the whole text, and tells where the text starts. -/
def remainders (length : Nat) : TextPattern → List Char → List (List Char)
  | empty, text => [text]
  | textStart, text => if text.length = length then [text] else []
  | textEnd, text => if text.isEmpty then [text] else []
  | oneOf _ _, [] => []
  | oneOf outside ranges, character :: rest =>
      if inRanges ranges character != outside then [rest] else []
  | sequence first second, text =>
      (remainders length first text).flatMap (remainders length second)
  | either first second, text => remainders length first text ++ remainders length second text
  | repeated pattern, text => afterSteps (remainders length pattern) text.length text

/-- Whether the pattern matches at the front of one of the ends of a text. -/
def matchesFrom (length : Nat) (pattern : TextPattern) : List Char → Bool
  | [] => !(pattern.remainders length []).isEmpty
  | character :: rest =>
      !(pattern.remainders length (character :: rest)).isEmpty ||
        matchesFrom length pattern rest

/-- Whether the pattern matches somewhere in a text. -/
def matchesText (pattern : TextPattern) (text : String) : Bool :=
  matchesFrom text.toList.length pattern text.toList

/-- The pattern of a single character. -/
def literal (character : Char) : TextPattern := oneOf false [(character, character)]

/-- The ranges that an escaped letter stands for. -/
def escapedRanges? : Char → Option (List (Char × Char))
  | 'd' => some [('0', '9')]
  | 'w' => some [('a', 'z'), ('A', 'Z'), ('0', '9'), ('_', '_')]
  | 's' => some [(' ', ' '), ('\t', '\r')]
  | _ => none

/-- The ranges of a class up to its closing bracket. -/
def readRanges : List Char → Option (List (Char × Char) × List Char)
  | [] => none
  | ']' :: rest => some ([], rest)
  | '\\' :: character :: rest =>
      (readRanges rest).map fun (ranges, left) =>
        ((escapedRanges? character).getD [(character, character)] ++ ranges, left)
  | '\\' :: [] => none
  | first :: '-' :: ']' :: rest =>
      some ([(first, first), ('-', '-')], rest)
  | first :: '-' :: last :: rest =>
      if last < first then
        none
      else
        (readRanges rest).map fun (ranges, left) => ((first, last) :: ranges, left)
  | first :: rest =>
      (readRanges rest).map fun (ranges, left) => ((first, first) :: ranges, left)

/-- The class behind an opening bracket. -/
def readClass : List Char → Option (TextPattern × List Char)
  | '^' :: rest => (readRanges rest).map fun (ranges, left) => (oneOf true ranges, left)
  | ']' :: _ => none
  | rest => (readRanges rest).map fun (ranges, left) => (oneOf false ranges, left)

/-- The repetition marks behind an item. -/
def readMarks (item : TextPattern) : List Char → TextPattern × List Char
  | '*' :: rest => (repeated item, rest)
  | '+' :: rest => (sequence item (repeated item), rest)
  | '?' :: rest => (either item empty, rest)
  | rest => (item, rest)

/-- What a pattern is being read up to: one item, a run of items, or
alternatives. -/
inductive Reading where
  | item
  | run
  | alternatives

/-- Reads a part of a pattern.  The number bounds the nesting. -/
def readPart : Nat → Reading → List Char → Option (TextPattern × List Char)
  | 0, _, _ => none
  | bound + 1, .item, characters =>
      match characters with
      | '(' :: '?' :: ':' :: rest | '(' :: rest => do
          let (inner, left) ← readPart bound .alternatives rest
          match left with
          | ')' :: left => return (inner, left)
          | _ => none
      | '[' :: rest => readClass rest
      | '^' :: rest => some (textStart, rest)
      | '$' :: rest => some (textEnd, rest)
      | '.' :: rest => some (oneOf true [('\n', '\n')], rest)
      | '\\' :: character :: rest =>
          some ((escapedRanges? character).elim (literal character) (oneOf false), rest)
      | ['\\'] | '*' :: _ | '+' :: _ | '?' :: _ | ')' :: _ | '|' :: _ | [] => none
      | character :: rest => some (literal character, rest)
  | bound + 1, .run, characters =>
      match characters with
      | [] | ')' :: _ | '|' :: _ => some (empty, characters)
      | _ => do
          let (item, rest) ← readPart bound .item characters
          let (marked, rest) := readMarks item rest
          let (others, rest) ← readPart bound .run rest
          return (sequence marked others, rest)
  | bound + 1, .alternatives, characters => do
      let (first, rest) ← readPart bound .run characters
      match rest with
      | '|' :: rest =>
          let (others, rest) ← readPart bound .alternatives rest
          return (either first others, rest)
      | _ => return (first, rest)

/-- The pattern that a text spells, if it spells one. -/
def ofString? (text : String) : Option TextPattern :=
  match readPart (3 * text.toList.length + 3) .alternatives text.toList with
  | some (pattern, []) => some pattern
  | _ => none

end TextPattern

end AssertLint
