/-!
# Source text measured in bytes

A source text is its list of characters.  Every offset in the library counts
the bytes of the UTF-8 encoding, so an offset may fall inside a character.
This file defines the length of a text in bytes, the cut at an offset, the
slice between two offsets, and the line and column of an offset.
-/

namespace AssertLint

/-- A half-open range of byte offsets.  Nothing forces `start ≤ stop`: ranges
proposed from outside may be inverted. -/
structure Span where
  start : Nat
  stop : Nat
  deriving DecidableEq, Repr, Inhabited

/-- The text under analysis, as its characters. -/
abbrev Source := List Char

namespace Source

/-- The number of bytes that UTF-8 spends on a text. -/
def byteLength : Source → Nat
  | [] => 0
  | character :: rest => character.utf8Size + byteLength rest

/-- The text from a byte offset on.  There is none when the offset lies inside
a character or beyond the end. -/
def dropBytes? : Source → Nat → Option Source
  | source, 0 => some source
  | [], _ + 1 => none
  | character :: rest, offset + 1 =>
      if character.utf8Size ≤ offset + 1 then
        dropBytes? rest (offset + 1 - character.utf8Size)
      else
        none

/-- The text up to a byte offset, under the condition of `dropBytes?`. -/
def takeBytes? : Source → Nat → Option Source
  | _, 0 => some []
  | [], _ + 1 => none
  | character :: rest, offset + 1 =>
      if character.utf8Size ≤ offset + 1 then
        (takeBytes? rest (offset + 1 - character.utf8Size)).map (character :: ·)
      else
        none

/-- Whether an offset separates two characters or is an end of the text. -/
def isBoundary (source : Source) (offset : Nat) : Bool :=
  (source.dropBytes? offset).isSome

/-- Whether a range can be cut out of the text: it is not inverted, it stays
inside the text, and both ends are boundaries. -/
def isValid (source : Source) (span : Span) : Bool :=
  decide (span.start ≤ span.stop) && decide (span.stop ≤ source.byteLength) &&
    source.isBoundary span.start && source.isBoundary span.stop

/-- The characters in a range, if the range can be cut out of the text. -/
def slice? (source : Source) (span : Span) : Option Source :=
  if span.start ≤ span.stop then
    (source.dropBytes? span.start).bind (·.takeBytes? (span.stop - span.start))
  else
    none

/-- The characters in a range, and nothing for a range that cannot be cut
out. -/
def slice (source : Source) (span : Span) : Source :=
  (source.slice? span).getD []

/-- The text of a range as a string. -/
def text (source : Source) (span : Span) : String :=
  String.ofList (source.slice span)

/-- The characters from an offset to the end. -/
def sliceFrom (source : Source) (offset : Nat) : Source :=
  (source.dropBytes? offset).getD []

end Source

/-- A place in a text: both numbers start at one, and the column counts
bytes. -/
structure Position where
  line : Nat
  column : Nat
  deriving DecidableEq, Repr, Inhabited

namespace Position

/-- The place of the first character. -/
def origin : Position := ⟨1, 1⟩

/-- The place after a character.  Only a line feed starts a new line. -/
def after (position : Position) (character : Char) : Position :=
  if character = '\n' then
    ⟨position.line + 1, 1⟩
  else
    ⟨position.line, position.column + character.utf8Size⟩

end Position

/-- The line and column of a byte offset. -/
def Source.position (source : Source) (offset : Nat) : Position :=
  ((source.takeBytes? offset).getD []).foldl Position.after Position.origin

end AssertLint
