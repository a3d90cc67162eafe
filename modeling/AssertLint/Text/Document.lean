/-!
# Documents in JSON

A document is written with one entry on each line, indented by its depth.
Characters outside ASCII are written as they are; quotes, backslashes and
control characters are escaped.
-/

namespace AssertLint

/-- A document.  The entries of an object keep their order. -/
inductive Document where
  | null
  | number (value : Nat)
  | text (value : String)
  | array (items : List Document)
  | object (entries : List (String × Document))
  deriving Inhabited

namespace Document

/-- The digit of a number below sixteen. -/
def hexDigit (value : Nat) : Char :=
  "0123456789abcdef".toList.getD value '0'

/-- The characters that stand for a character in a quoted text. -/
def escaped (character : Char) : List Char :=
  match character with
  | '\x22' => ['\\', '\x22']
  | '\\' => ['\\', '\\']
  | '\n' => ['\\', 'n']
  | '\r' => ['\\', 'r']
  | '\t' => ['\\', 't']
  | '\x08' => ['\\', 'b']
  | '\x0c' => ['\\', 'f']
  | other =>
      if other.toNat < 32 then
        ['\\', 'u', '0', '0', hexDigit (other.toNat / 16), hexDigit (other.toNat % 16)]
      else
        [other]

/-- A text in quotes. -/
def quoted (text : String) : String :=
  "\"" ++ String.ofList (text.toList.flatMap escaped) ++ "\""

/-- The start of a line at a depth. -/
def indentation (depth : Nat) : String :=
  "\n" ++ String.ofList (List.replicate (2 * depth) ' ')

mutual

/-- The document as it is written at a depth. -/
def write (depth : Nat) : Document → String
  | null => "null"
  | number value => toString value
  | text value => quoted value
  | array [] => "[]"
  | array (first :: rest) =>
      "[" ++ indentation (depth + 1) ++ write (depth + 1) first ++
        writeItems (depth + 1) rest ++ indentation depth ++ "]"
  | object [] => "\x7b\x7d"
  | object ((key, value) :: rest) =>
      "\x7b" ++ indentation (depth + 1) ++ quoted key ++ ": " ++ write (depth + 1) value ++
        writeEntries (depth + 1) rest ++ indentation depth ++ "\x7d"

/-- The items of a list behind the first one. -/
def writeItems (depth : Nat) : List Document → String
  | [] => ""
  | item :: rest => "," ++ indentation depth ++ write depth item ++ writeItems depth rest

/-- The entries of an object behind the first one. -/
def writeEntries (depth : Nat) : List (String × Document) → String
  | [] => ""
  | (key, value) :: rest =>
      "," ++ indentation depth ++ quoted key ++ ": " ++ write depth value ++
        writeEntries depth rest

end

/-- The whole document. -/
def render (document : Document) : String := document.write 0

/-- A text that may be missing. -/
def optionalText : Option String → Document
  | some value => text value
  | none => null

end Document

end AssertLint
