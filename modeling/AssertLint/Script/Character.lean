/-!
# Characters of scripts

Which characters separate words, end lines, and make up names and numbers.
A name may hold any character that is neither blank, nor a control character,
nor one of the signs of the language, so letters of every alphabet are
allowed.
-/

namespace AssertLint

namespace Script

/-- A character that ends a line. -/
def isLineBreak (character : Char) : Bool :=
  character = '\n' || character = '\u2028' || character = '\u2029'

/-- A character that ends a comment that runs to the end of its line. -/
def endsLineComment (character : Char) : Bool :=
  isLineBreak character || character = '\r'

/-- A character that only separates words. -/
def isBlank (character : Char) : Bool :=
  let code := character.toNat
  (9 ≤ code && code ≤ 13) || code = 0x20 || code = 0x85 || code = 0xA0 || code = 0x1680 ||
    (0x2000 ≤ code && code ≤ 0x200B) || code = 0x2028 || code = 0x2029 || code = 0x202F ||
    code = 0x205F || code = 0x2060 || code = 0x3000 || code = 0xFEFF

/-- A blank that does not stand in the way when the end of a statement is
sought: the blanks of the ASCII alphabet. -/
def isPlainBlank (character : Char) : Bool :=
  let code := character.toNat
  (9 ≤ code && code ≤ 13) || code = 0x20

/-- The signs of the language that cannot be part of a name. -/
def isSignCharacter (character : Char) : Bool :=
  ":;\x60\"'@#.,|^&<=>+-*/\\%?!~()[]\x7b\x7d".toList.contains character

/-- A character that may stand in a name behind its first one. -/
def isNamePart (character : Char) : Bool :=
  32 ≤ character.toNat && !isBlank character && !isSignCharacter character

/-- A character that may begin a name. -/
def isNameStart (character : Char) : Bool :=
  isNamePart character && !character.isDigit

/-- A digit of a binary number. -/
def isBinaryDigit (character : Char) : Bool :=
  character = '0' || character = '1'

/-- A digit of an octal number. -/
def isOctalDigit (character : Char) : Bool :=
  '0' ≤ character && character ≤ '7'

/-- A digit of a hexadecimal number. -/
def isHexDigit (character : Char) : Bool :=
  character.isDigit || ('a' ≤ character && character ≤ 'f') ||
    ('A' ≤ character && character ≤ 'F')

/-- A small letter of the ASCII alphabet. -/
def isSmallLetter (character : Char) : Bool :=
  'a' ≤ character && character ≤ 'z'

end Script

end AssertLint
