import AssertLint.Tree.Node

/-!
# Walking a tree

A walk enters every node before its children and leaves it after them.  It is
made by moving a cursor: down to the first child, else on to the next sibling,
else up until there is a next sibling.  The nodes that have been entered and
not yet left are kept on a stack, and a node is left only when the cursor turns
up at a place that is no deeper.
-/

namespace AssertLint

/-- What happens to a node during a walk. -/
inductive Event where
  | enter (cursor : Cursor)
  | leave (cursor : Cursor)
  deriving Inhabited

namespace Walk

/-- The next sibling of a node or, if it has none, of its nearest ancestor
that has one; the way up from the node is given. -/
def siblingAlong (node : Node) : List Ascent → Option Cursor
  | [] => none
  | ascent :: rest =>
      match (⟨node, ascent :: rest⟩ : Cursor).nextSibling? with
      | some sibling => some sibling
      | none => siblingAlong ascent.parent rest

/-- Where the cursor moves after a node has been entered. -/
def next? (cursor : Cursor) : Option Cursor :=
  match cursor.firstChild? with
  | some child => some child
  | none => siblingAlong cursor.node cursor.ascents

/-- Takes nodes off the stack while it is higher than `depth`. -/
def unwind (depth : Nat) : List Cursor → List Event × List Cursor
  | [] => ([], [])
  | top :: below =>
      if depth < below.length + 1 then
        let (events, stack) := unwind depth below
        (.leave top :: events, stack)
      else
        ([], top :: below)

/-- Enters the node at the cursor and goes on from there, for at most the given
number of nodes. -/
def run : Nat → Cursor → List Cursor → List Event
  | 0, _, stack => stack.map .leave
  | remaining + 1, cursor, stack =>
      let (left, stack) := unwind cursor.depth stack
      let stack := cursor :: stack
      left ++ .enter cursor ::
        match next? cursor with
        | some following => run remaining following stack
        | none => stack.map .leave

end Walk

/-- The events of a walk over a whole tree. -/
def Node.walk (tree : Node) : List Event :=
  Walk.run tree.size (Cursor.root tree) []

namespace Cursor

mutual

/-- The events of a recursive traversal: enter a node, traverse its children in
order, leave the node. -/
def eventsOf (ascents : List Ascent) : Node → List Event
  | ⟨kind, field, span, children⟩ =>
      .enter ⟨⟨kind, field, span, children⟩, ascents⟩ ::
        (eventsOfList ⟨kind, field, span, children⟩ ascents 0 children ++
          [.leave ⟨⟨kind, field, span, children⟩, ascents⟩])

/-- The events of traversing the children of `parent` from a given index on. -/
def eventsOfList (parent : Node) (ascents : List Ascent) (index : Nat) :
    List Node → List Event
  | [] => []
  | node :: rest =>
      eventsOf (⟨parent, index⟩ :: ascents) node ++
        eventsOfList parent ascents (index + 1) rest

end

end Cursor

/-- The events of the recursive traversal of a whole tree. -/
def Node.traversal (tree : Node) : List Event := Cursor.eventsOf [] tree

end AssertLint
