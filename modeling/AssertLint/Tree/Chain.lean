/-!
# Following successors

Several questions about a tree are answered by following a partial successor
function to its end: stripping parentheses, finding the object at the root of
nested member accesses, tracing where a value comes from.  A bound on the
number of steps makes the search total; it is chosen so large that the end is
always reached.
-/

namespace AssertLint

/-- The end of the chain that `successor?` makes from `start`, or the element
reached after `bound` steps. -/
def chainEnd {α : Type} (successor? : α → Option α) : (bound : Nat) → (start : α) → α
  | 0, start => start
  | bound + 1, start =>
      match successor? start with
      | some following => chainEnd successor? bound following
      | none => start

end AssertLint
