import AssertLint.Query.Pattern

/-!
# Messages about faulty queries

A message gives the line and column of the fault.  Depending on the fault it
names the word at that place, or shows the line with a mark below it.
-/

namespace AssertLint

namespace Query

/-- The place of a fault: the number of lines before it, the bytes before it in
its line, and the line, unless the place is behind the last line. -/
structure Place where
  row : Nat
  column : Nat
  line : Option (List Char)

/-- The lines of a text.  An empty line at the end does not count. -/
def linesOf : List Char → List (List Char)
  | [] => []
  | '\n' :: rest => [] :: linesOf rest
  | character :: rest =>
      match rest, linesOf rest with
      | '\n' :: _, lines => [character] :: lines.drop 1
      | _, [] => [[character]]
      | _, line :: lines => (character :: line) :: lines

/-- The place of an offset among lines. -/
def placeAmong (row : Nat) : Nat → List (List Char) → Place
  | offset, [] => ⟨row, offset, none⟩
  | offset, line :: rest =>
      if offset < Source.byteLength line + 1 then
        ⟨row, offset, some line⟩
      else
        placeAmong (row + 1) (offset - (Source.byteLength line + 1)) rest

/-- The place of an offset in the text of a query. -/
def placeOf (text : String) (offset : Nat) : Place :=
  placeAmong 0 offset (linesOf text.toList)

namespace Place

/-- The start of every message. -/
def heading (place : Place) : String :=
  "Query error at " ++ toString (place.row + 1) ++ ":" ++ toString (place.column + 1) ++ ". "

/-- The line of the place with a mark below it. -/
def marked (place : Place) : String :=
  match place.line with
  | some line =>
      String.ofList line ++ "\n" ++ String.ofList (List.replicate place.column ' ') ++ "^"
  | none => "Unexpected EOF"

end Place

/-- The word at an offset of a text. -/
def wordAt (text : String) (offset : Nat) : String :=
  String.ofList <| (Source.sliceFrom text.toList offset).takeWhile fun character =>
    character.isAlphanum || character = '_' || character = '-'

/-- The message about a fault of a query. -/
def Fault.message (text : String) : Fault → String
  | unreadable offset =>
      let place := placeOf text offset
      place.heading ++ "Invalid syntax:\n" ++ place.marked
  | unknownKind offset =>
      (placeOf text offset).heading ++ "Invalid node type " ++ wordAt text offset
  | unknownField offset =>
      (placeOf text offset).heading ++ "Invalid field name " ++ wordAt text offset
  | unknownCapture offset =>
      (placeOf text offset).heading ++ "Invalid capture name " ++ wordAt text offset
  | impossible offset =>
      let place := placeOf text offset
      place.heading ++ "Impossible pattern:\n" ++ place.marked
  | badCondition offset problem =>
      ({ placeOf text offset with column := 0 }).heading ++ "Invalid predicate: " ++ problem

end Query

end AssertLint
