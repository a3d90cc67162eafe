import AssertLint.Text.Source
import AssertLint.Text.StableSort

/-!
# Edits and fixes

A rule proposes edits, replacements of ranges of the source.  The edits of one
finding are merged into a single fix, which replaces the range from the first
edit to the last and carries the text between the edits along.  A pass applies
the fixes of all findings from left to right and leaves out every fix that
starts inside one already applied.
-/

namespace AssertLint

/-- A replacement of a range of the source by a text. -/
structure Edit where
  span : Span
  text : String
  deriving DecidableEq, Repr, Inhabited

/-- The merged edits of one finding: one range and the text that takes its
place. -/
structure Fix where
  span : Span
  text : String
  deriving DecidableEq, Repr, Inhabited

/-- Why the edits of a finding make no fix. -/
inductive FixError where
  | noEdits
  | invalidRange (span : Span) (length : Nat)
  | overlappingEdits (first second : Span)
  deriving DecidableEq, Repr

namespace Span

/-- The range as it is written in messages. -/
def written (span : Span) : String :=
  toString span.start ++ ".." ++ toString span.stop

end Span

namespace FixError

/-- The wording of each cause. -/
def message : FixError → String
  | noEdits => "fix has no edits"
  | invalidRange span length =>
      "edit range " ++ span.written ++ " is not valid for a source of " ++
        toString length ++ " bytes"
  | overlappingEdits first second =>
      "edit ranges " ++ first.written ++ " and " ++ second.written ++ " overlap"

end FixError

namespace Edit

/-- Edits in order of their starts; edits that start together keep their
order. -/
def inOrder (edits : List Edit) : List Edit :=
  stableSortBy (·.span.start) edits

/-- The first two neighbours of which the first ends behind the start of the
second. -/
def firstOverlap? : List Edit → Option (Span × Span)
  | [] => none
  | [_] => none
  | first :: second :: rest =>
      if second.span.start < first.span.stop then
        some (first.span, second.span)
      else
        firstOverlap? (second :: rest)

/-- The text from an offset to the end of the last edit, with every edit made
on the way. -/
def mergedText (source : Source) : Nat → List Edit → List Char
  | _, [] => []
  | position, edit :: rest =>
      source.slice ⟨position, edit.span.start⟩ ++ edit.text.toList ++
        mergedText source edit.span.stop rest

/-- The end of the last edit, or the given offset when there is none. -/
def lastStop : Nat → List Edit → Nat
  | position, [] => position
  | _, edit :: rest => lastStop edit.span.stop rest

end Edit

namespace Fix

/-- Merges edits into one fix.  The edits must be there, must all be valid
ranges of the source, and must not overlap; the first check that fails is
reported, and an invalid range is looked for in the order given. -/
def ofEdits (source : Source) (edits : List Edit) : Except FixError Fix :=
  match edits with
  | [] => .error .noEdits
  | _ :: _ =>
      match edits.find? fun edit => !source.isValid edit.span with
      | some edit => .error (.invalidRange edit.span source.byteLength)
      | none =>
          let ordered := Edit.inOrder edits
          match Edit.firstOverlap? ordered with
          | some (first, second) => .error (.overlappingEdits first second)
          | none =>
              let start := (ordered.head?.map (·.span.start)).getD 0
              .ok
                { span := ⟨start, Edit.lastStop start ordered⟩
                  text := String.ofList (Edit.mergedText source start ordered) }

/-- Fixes in order of their starts; fixes that start together keep their
order. -/
def inOrder (fixes : List Fix) : List Fix :=
  stableSortBy (·.span.start) fixes

/-- The fixes that a pass makes, of a list in order: those that start at or
behind the end of the last one made and are valid ranges of the source. -/
def selectFrom (source : Source) : Nat → List Fix → List Fix
  | _, [] => []
  | position, fix :: rest =>
      if fix.span.start < position || !source.isValid fix.span then
        selectFrom source position rest
      else
        fix :: selectFrom source fix.span.stop rest

/-- Replaces the ranges of the given fixes, from an offset to the end of the
source. -/
def spliceFrom (source : Source) : Nat → List Fix → Source
  | position, [] => source.sliceFrom position
  | position, fix :: rest =>
      source.slice ⟨position, fix.span.start⟩ ++ fix.text.toList ++
        spliceFrom source fix.span.stop rest

/-- The fixes of a list that a pass over the source makes. -/
def selected (source : Source) (fixes : List Fix) : List Fix :=
  selectFrom source 0 (inOrder fixes)

/-- The source after one pass with the given fixes. -/
def applyAll (source : Source) (fixes : List Fix) : Source :=
  spliceFrom source 0 (selected source fixes)

end Fix

end AssertLint
