/-!
# Stable insertion sort

Findings, edits and callbacks are all put in order by a sort that keeps
entries with equal keys in the order in which they came.  Inserting each entry
in front of the first one that does not have to precede it gives such a sort
by recursion on the list.
-/

namespace AssertLint

/-- Puts an entry in front of the first one that it may precede. -/
def insertStable {α : Type} (mayPrecede : α → α → Bool) (entry : α) : List α → List α
  | [] => [entry]
  | other :: rest =>
      if mayPrecede entry other then
        entry :: other :: rest
      else
        other :: insertStable mayPrecede entry rest

/-- Sorts by `mayPrecede`; entries that may precede each other keep their
order. -/
def stableSort {α : Type} (mayPrecede : α → α → Bool) (entries : List α) : List α :=
  entries.foldr (insertStable mayPrecede) []

/-- Sorts by a numeric key, in ascending order. -/
def stableSortBy {α : Type} (key : α → Nat) (entries : List α) : List α :=
  stableSort (fun first second => decide (key first ≤ key second)) entries

end AssertLint
