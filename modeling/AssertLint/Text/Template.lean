import AssertLint.Text.StableSort

/-!
# Message templates

A template holds placeholders, a name between two pairs of braces.  Filling a
template replaces one name after the other, in ascending order of the names,
each over the text that the previous replacement left.
-/

namespace AssertLint

namespace Template

/-- Replaces the occurrences of a pattern from left to right.  The number says
how many characters of an occurrence are still to be passed over. -/
def replaceFrom (pattern replacement : List Char) : Nat → List Char → List Char
  | _, [] => []
  | pending + 1, _ :: rest => replaceFrom pattern replacement pending rest
  | 0, character :: rest =>
      if pattern.isPrefixOf (character :: rest) then
        replacement ++ replaceFrom pattern replacement (pattern.length - 1) rest
      else
        character :: replaceFrom pattern replacement 0 rest

/-- Replaces every occurrence of a non-empty pattern. -/
def replaceAll (pattern replacement text : List Char) : List Char :=
  replaceFrom pattern replacement 0 text

/-- The placeholder of a name. -/
def placeholder (name : String) : List Char :=
  ['{', '{'] ++ name.toList ++ ['}', '}']

/-- Values for names, in ascending order of the names. -/
def orderedData (data : List (String × String)) : List (String × String) :=
  stableSort (fun first second => decide (first.1 ≤ second.1)) data

/-- Fills the placeholders of the names in `data`. -/
def fill (template : String) (data : List (String × String)) : String :=
  String.ofList <|
    (orderedData data).foldl
      (fun text entry => replaceAll (placeholder entry.1) entry.2.toList text)
      template.toList

end Template

end AssertLint
