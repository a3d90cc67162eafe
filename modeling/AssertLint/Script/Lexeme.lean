import AssertLint.Script.Character

/-!
# Lexemes

How many characters at the front of a text belong to a name, a number, a
comment and so on.  Every function here only measures: nothing is cut off the
text.
-/

namespace AssertLint

namespace Script

namespace Lexeme

/-- The number of characters of an escape that stands for one character of a
name. -/
def nameEscape? : List Char → Option Nat
  | '\\' :: 'u' :: '{' :: rest =>
      let digits := (rest.takeWhile isHexDigit).length
      if digits ≠ 0 && rest[digits]? = some '}' then some (digits + 4) else none
  | '\\' :: 'u' :: rest =>
      if ((rest.take 4).takeWhile isHexDigit).length = 4 then some 6 else none
  | _ => none

/-- The number of characters of the rest of a name.  The number says how many
of them are known to belong to it because an escape is open. -/
def nameTail : Nat → List Char → Nat
  | _, [] => 0
  | known + 1, _ :: rest => nameTail known rest + 1
  | 0, character :: rest =>
      if isNamePart character then nameTail 0 rest + 1
      else
        match nameEscape? (character :: rest) with
        | some length => nameTail (length - 1) rest + 1
        | none => 0

/-- The number of characters of a name, zero if there is none. -/
def name (characters : List Char) : Nat :=
  match characters with
  | [] => 0
  | character :: _ =>
      if isNameStart character || (nameEscape? characters).isSome then nameTail 0 characters
      else 0

/-- The number of characters of a private name, zero if there is none. -/
def privateName : List Char → Nat
  | '#' :: rest =>
      match name rest with
      | 0 => 0
      | length + 1 => length + 2
  | _ => 0

/-- The number of characters of digits, between any two of which there may be
one mark that groups them. -/
def digits (isDigit : Char → Bool) : List Char → Nat
  | [] => 0
  | [character] => if isDigit character then 1 else 0
  | character :: following :: rest =>
      if isDigit character then
        if following = '_' && (rest.head?.map isDigit).getD false then
          digits isDigit (following :: rest) + 1
        else if isDigit following then
          digits isDigit (following :: rest) + 1
        else
          1
      else if character = '_' && isDigit following then
        digits isDigit (following :: rest) + 1
      else
        0

/-- The number of characters of digits that do not begin with a mark. -/
def plainDigits (isDigit : Char → Bool) (characters : List Char) : Nat :=
  if (characters.head?.map isDigit).getD false then digits isDigit characters else 0

/-- The number of characters of an exponent, zero if there is none. -/
def exponent : List Char → Nat
  | mark :: sign :: rest =>
      if mark = 'e' || mark = 'E' then
        if sign = '+' || sign = '-' then
          match plainDigits Char.isDigit rest with
          | 0 => 0
          | length + 1 => length + 3
        else
          match plainDigits Char.isDigit (sign :: rest) with
          | 0 => 0
          | length + 1 => length + 2
      else
        0
  | _ => 0

/-- The number of characters of a number with a base mark, zero if there is
none. -/
def basedNumber : List Char → Nat
  | '0' :: mark :: rest =>
      let length :=
        if mark = 'x' || mark = 'X' then plainDigits isHexDigit rest
        else if mark = 'o' || mark = 'O' then plainDigits isOctalDigit rest
        else if mark = 'b' || mark = 'B' then plainDigits isBinaryDigit rest
        else 0
      if length = 0 then 0 else length + 2
  | _ => 0

/-- The number of digits before the point or the exponent of a number.  A
number with a needless zero in front has neither, save for a single zero before
another digit than zero. -/
def wholePart (characters : List Char) : Nat :=
  match characters with
  | '0' :: following :: rest =>
      if following.isDigit && following ≠ '0' then digits Char.isDigit (following :: rest) + 1
      else 1
  | _ => plainDigits Char.isDigit characters

/-- The number of characters of a number with a point or an exponent, zero if
there is none. -/
def fraction (characters : List Char) : Nat :=
  let whole := wholePart characters
  match characters.drop whole with
  | '.' :: rest =>
      let places := plainDigits Char.isDigit rest
      if whole = 0 && places = 0 then 0
      else whole + 1 + places + exponent (rest.drop places)
  | rest =>
      if whole = 0 then 0
      else
        match exponent rest with
        | 0 => 0
        | length + 1 => whole + length + 1

/-- The number of characters of a number, zero if there is none.  An integer
may end in the mark of big integers. -/
def number (characters : List Char) : Nat :=
  let integer := max (basedNumber characters) (plainDigits Char.isDigit characters)
  let marked :=
    if integer ≠ 0 && characters[integer]? = some 'n' then integer + 1 else integer
  max marked (fraction characters)

/-- The number of characters of an escape in a literal, zero if there is
none. -/
def escape : List Char → Nat
  | '\\' :: 'x' :: rest =>
      if ((rest.take 2).takeWhile isHexDigit).length = 2 then 4 else 0
  | '\\' :: 'u' :: rest => (nameEscape? ('\\' :: 'u' :: rest)).getD 0
  | '\\' :: character :: rest =>
      if isOctalDigit character then
        (((character :: rest).take 3).takeWhile isOctalDigit).length + 1
      else if (character = '\r' || character = '?') &&
          (rest.head?.map isLineBreak).getD false then
        3
      else
        2
  | _ => 0

/-- The number of characters up to the end of a comment that is closed by a
sign, from behind the sign that opens it. -/
def blockRest? : List Char → Option Nat
  | [] => none
  | '*' :: '/' :: _ => some 2
  | _ :: rest => (blockRest? rest).map (· + 1)

/-- The number of characters of a comment, zero if there is none. -/
def comment : List Char → Nat
  | '/' :: '/' :: rest => (rest.takeWhile (!endsLineComment ·)).length + 2
  | '/' :: '*' :: rest => ((blockRest? rest).map (· + 2)).getD 0
  | _ => 0

/-- The number of characters of the pattern of a regular expression.  Inside
brackets a slash does not end it, and an escaped character never does. -/
def regexPattern : (isBracketed isEscaped : Bool) → List Char → Nat
  | _, _, [] => 0
  | isBracketed, true, character :: rest =>
      if character = '\n' then 0 else regexPattern isBracketed false rest + 1
  | isBracketed, false, character :: rest =>
      if character = '\n' then 0
      else if character = '\\' then regexPattern isBracketed true rest + 1
      else if character = '[' then regexPattern true false rest + 1
      else if character = ']' then regexPattern false false rest + 1
      else if character = '/' && !isBracketed then 0
      else regexPattern isBracketed false rest + 1

/-- The number of plain characters of a template. -/
def templateText : List Char → Nat
  | [] => 0
  | '$' :: '{' :: _ => 0
  | character :: rest =>
      if character = '\x60' || character = '\\' then 0 else templateText rest + 1

/-- The number of characters of the words `static get` at the end of a line,
zero if there are none.  Blank lines behind it belong to it. -/
def staticGetter (characters : List Char) : Nat :=
  if "static".toList.isPrefixOf characters then
    let between := ((characters.drop 6).takeWhile isBlank).length
    let behind := characters.drop (6 + between)
    if between ≠ 0 && "get".toList.isPrefixOf behind then
      let blanks := (behind.drop 3).takeWhile isBlank
      let line := (blanks.reverse.dropWhile (· ≠ '\n')).length
      if line = 0 then 0 else 9 + between + line
    else
      0
  else
    0

end Lexeme

end Script

end AssertLint
