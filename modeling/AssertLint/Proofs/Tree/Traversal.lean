import AssertLint.Proofs.Tree.Walk
import Mathlib.Data.List.Basic

/-!
# The loop of a walk ends with the recursive traversal

A walk is computed for at most as many nodes as the tree has.  This file describes
its loops without any bound, one round at a time, and counts the nodes that are still
to be entered: each round of the main loop enters one of them, so the loops end, and
the bound is never met.

The order of the events is then read off the recursive traversal.  What happens between
entering a node and leaving it is what happens to the nodes below it, and right behind
stands the next sibling.
-/

namespace AssertLint

namespace Walk

/-- Where the loops of a walk are, with the nodes on the stack.  Either the cursor has
come to a node, or it goes up from a node without a next sibling, or it has nowhere to
go and the rest of the stack is taken off. -/
inductive Phase where
  | arrived (cursor : Cursor) (stack : List Cursor)
  | climbing (cursor : Cursor) (stack : List Cursor)
  | closing (stack : List Cursor)

namespace Phase

/-- Where a node leads that has just been put on the stack. -/
def afterEntering (cursor : Cursor) (stack : List Cursor) : Phase :=
  match cursor.firstChild? with
  | some child => arrived child stack
  | none =>
      match cursor.nextSibling? with
      | some sibling => arrived sibling stack
      | none => climbing cursor stack

/-- One round of the loop that is under way: the event that it makes, if any, and where
it leads.  There is no further round when the stack is empty at the end. -/
def step? : Phase → Option (Option Event × Phase)
  | arrived cursor stack =>
      if cursor.depth < stack.length then
        some (stack.head?.map .leave, arrived cursor stack.tail)
      else
        some (some (.enter cursor), afterEntering cursor (cursor :: stack))
  | climbing cursor stack =>
      match cursor.parent? with
      | none => some (none, closing stack)
      | some parent =>
          match parent.nextSibling? with
          | some sibling => some (none, arrived sibling stack)
          | none => some (none, climbing parent stack)
  | closing [] => none
  | closing (top :: below) => some (some (.leave top), closing below)

/-- The loops come to an end after finitely many rounds, which make the given events. -/
inductive Ends : Phase → List Event → Prop where
  | stop {phase : Phase} (noRound : phase.step? = none) : Ends phase []
  | round {phase next : Phase} {event? : Option Event} {events : List Event}
      (made : phase.step? = some (event?, next)) (rest : Ends next events) :
      Ends phase (event?.toList ++ events)

theorem Ends.silent {phase next : Phase} {events : List Event}
    (made : phase.step? = some (none, next)) (rest : next.Ends events) : phase.Ends events :=
  Ends.round made rest

theorem Ends.making {phase next : Phase} {event : Event} {events : List Event}
    (made : phase.step? = some (some event, next)) (rest : next.Ends events) :
    phase.Ends (event :: events) :=
  Ends.round made rest

theorem Ends.unique {phase : Phase} {events events' : List Event} (ends : phase.Ends events)
    (ends' : phase.Ends events') : events = events' := by
  induction ends generalizing events' with
  | stop noRound =>
      cases ends' with
      | stop => rfl
      | round made => simp [noRound] at made
  | round made rest ih =>
      cases ends' with
      | stop noRound => simp [noRound] at made
      | round made' rest' =>
          obtain ⟨rfl, rfl⟩ := Prod.mk.inj (Option.some.inj (made.symm.trans made'))
          rw [ih rest']

theorem ends_closing (stack : List Cursor) : (closing stack).Ends (stack.map .leave) := by
  induction stack with
  | nil => exact Ends.stop rfl
  | cons top below ih => exact Ends.making rfl ih

/-- Where the loops go on, given the node that the cursor moves to. -/
def resume (stack : List Cursor) : Option Cursor → Phase
  | some following => arrived following stack
  | none => closing stack

end Phase

theorem siblingAlong_of_nextSibling? {node : Node} {ascents : List Ascent} {sibling : Cursor}
    (found : Cursor.nextSibling? ⟨node, ascents⟩ = some sibling) :
    siblingAlong node ascents = some sibling := by
  cases ascents with
  | nil => simp [Cursor.nextSibling?] at found
  | cons ascent rest => rw [siblingAlong, found]

namespace Phase

variable {cursor : Cursor} {stack : List Cursor} {events : List Event}

/-- Going up round by round ends where the search along the way up does. -/
theorem Ends.climbing {node : Node} {ascents : List Ascent}
    (last : Cursor.nextSibling? ⟨node, ascents⟩ = none)
    (rest : (resume stack (siblingAlong node ascents)).Ends events) :
    (climbing ⟨node, ascents⟩ stack).Ends events := by
  induction ascents generalizing node with
  | nil => exact Ends.silent rfl rest
  | cons ascent higher ih =>
      rw [siblingAlong, last] at rest
      cases found : Cursor.nextSibling? ⟨ascent.parent, higher⟩ with
      | some sibling =>
          rw [siblingAlong_of_nextSibling? found] at rest
          have made : (Phase.climbing ⟨node, ascent :: higher⟩ stack).step? =
              some (none, Phase.arrived sibling stack) := by
            simp [step?, Cursor.parent?, found]
          exact Ends.silent made rest
      | none =>
          have made : (Phase.climbing ⟨node, ascent :: higher⟩ stack).step? =
              some (none, Phase.climbing ⟨ascent.parent, higher⟩ stack) := by
            simp [step?, Cursor.parent?, found]
          exact Ends.silent made (ih found rest)

theorem Ends.afterEntering (rest : (resume stack (next? cursor)).Ends events) :
    (afterEntering cursor stack).Ends events := by
  rw [next?] at rest
  rw [Phase.afterEntering]
  cases childFound : cursor.firstChild? with
  | some child => rwa [childFound] at rest
  | none =>
      rw [childFound] at rest
      cases siblingFound : cursor.nextSibling? with
      | some sibling => rwa [siblingAlong_of_nextSibling? siblingFound] at rest
      | none => exact Ends.climbing siblingFound rest

/-- Taking nodes off the stack one at a time comes to the same as unwinding it. -/
theorem Ends.arrived
    (rest : (resume (cursor :: (unwind cursor.depth stack).2) (next? cursor)).Ends events) :
    (arrived cursor stack).Ends
      ((unwind cursor.depth stack).1 ++ .enter cursor :: events) := by
  induction stack with
  | nil => exact Ends.making rfl rest.afterEntering
  | cons top below ih =>
      rw [unwind] at rest ⊢
      by_cases higher : cursor.depth < below.length + 1
      · rw [if_pos higher] at rest ⊢
        exact Ends.making (if_pos higher) (ih rest)
      · rw [if_neg higher] at rest ⊢
        exact Ends.making (if_neg higher) rest.afterEntering

end Phase

/-! ## Nodes still to be entered -/

/-- The number of nodes behind a node and all that is below it, that is, at or below a
later sibling of the node or of an ancestor; the way up from the node is given. -/
def sizeBehind : List Ascent → Nat
  | [] => 0
  | ascent :: rest =>
      Node.sizeOfList (ascent.parent.children.drop (ascent.index + 1)) + sizeBehind rest

/-- The number of nodes that are still to be entered when the cursor has come to a
node. -/
def sizeAhead (cursor : Cursor) : Nat := cursor.node.size + sizeBehind cursor.ascents

theorem sizeAhead_eq (cursor : Cursor) :
    sizeAhead cursor =
      Node.sizeOfList cursor.node.children + 1 + sizeBehind cursor.ascents := by
  rw [sizeAhead, Cursor.size_eq]

theorem sizeOfList_drop {nodes : List Node} {index : Nat} {node : Node}
    (found : nodes[index]? = some node) :
    Node.sizeOfList (nodes.drop index) =
      node.size + Node.sizeOfList (nodes.drop (index + 1)) := by
  obtain ⟨bound, rfl⟩ := List.getElem?_eq_some_iff.mp found
  rw [List.drop_eq_getElem_cons bound, Node.sizeOfList]

theorem sizeAhead_of_siblingAlong {node : Node} {ascents : List Ascent} {following : Cursor}
    (found : siblingAlong node ascents = some following) :
    sizeAhead following = sizeBehind ascents := by
  induction ascents generalizing node with
  | nil => simp [siblingAlong] at found
  | cons ascent rest ih =>
      rw [siblingAlong] at found
      rw [sizeBehind]
      split at found
      next sibling siblingFound =>
        obtain rfl := Option.some.inj found
        obtain ⟨next, nextFound, rfl⟩ := Option.map_eq_some_iff.mp siblingFound
        rw [sizeAhead, sizeBehind, sizeOfList_drop nextFound]
        exact (Nat.add_assoc _ _ _).symm
      next noSibling =>
        have last : ascent.parent.children.length ≤ ascent.index + 1 :=
          List.getElem?_eq_none_iff.mp (Option.map_eq_none_iff.mp noSibling)
        rw [ih found, List.drop_eq_nil_of_le last, Node.sizeOfList]
        omega

/-- Each round of the main loop enters one of the nodes. -/
theorem sizeAhead_of_next? {cursor following : Cursor} (moved : next? cursor = some following) :
    sizeAhead following + 1 = sizeAhead cursor := by
  rw [next?] at moved
  rw [sizeAhead_eq cursor]
  cases childFound : cursor.firstChild? with
  | some child =>
      rw [childFound] at moved
      obtain rfl := Option.some.inj moved
      obtain ⟨nodeFound, ascentsEq⟩ := Cursor.child?_eq_some_iff.mp childFound
      have whole := sizeOfList_drop nodeFound
      rw [List.drop_zero] at whole
      rw [sizeAhead, ascentsEq, sizeBehind, whole]
      dsimp only
      omega
  | none =>
      rw [childFound] at moved
      have noChild : cursor.node.children.length ≤ 0 :=
        List.getElem?_eq_none_iff.mp (Option.map_eq_none_iff.mp childFound)
      rw [sizeAhead_of_siblingAlong moved, List.length_eq_zero_iff.mp (Nat.le_zero.mp noChild),
        Node.sizeOfList]
      omega

/-- The loops end and make the events of the bounded walk, if the bound leaves room for
all nodes that are still to be entered. -/
theorem ends_run {remaining : Nat} {cursor : Cursor} (stack : List Cursor)
    (enough : sizeAhead cursor ≤ remaining) :
    (Phase.arrived cursor stack).Ends (run remaining cursor stack) := by
  induction remaining generalizing cursor stack with
  | zero =>
      rw [sizeAhead_eq] at enough
      omega
  | succ remaining ih =>
      rw [run]
      apply Phase.Ends.arrived
      cases moved : next? cursor with
      | none => exact Phase.ends_closing _
      | some following =>
          have fewer := sizeAhead_of_next? moved
          exact ih _ (by omega)

theorem ends_walk (tree : Node) : (Phase.arrived (Cursor.root tree) []).Ends tree.walk :=
  ends_run [] (Nat.le_refl tree.size)

end Walk

/-! ## The order of the events -/

namespace Event

/-- The node that an event leaves, if it leaves one. -/
def left? : Event → Option Cursor
  | .enter _ => none
  | .leave cursor => some cursor

theorem entered?_eq_some_iff {event : Event} {cursor : Cursor} :
    event.entered? = some cursor ↔ event = .enter cursor := by
  cases event <;> simp [entered?]

theorem left?_eq_some_iff {event : Event} {cursor : Cursor} :
    event.left? = some cursor ↔ event = .leave cursor := by
  cases event <;> simp [left?]

/-- Of the two events of each node, exactly one is picked for the node. -/
def PicksOne (pick : Event → Option Cursor) : Prop :=
  ∀ cursor, (pick (.enter cursor)).toList ++ (pick (.leave cursor)).toList = [cursor]

theorem picksOne_entered? : PicksOne entered? := fun _ => rfl

theorem picksOne_left? : PicksOne left? := fun _ => rfl

end Event

namespace Cursor

section Picked

variable {pick : Event → Option Cursor}

mutual

private theorem picked_eventsOf_perm (one : Event.PicksOne pick) (ascents : List Ascent) :
    (node : Node) → ((eventsOf ascents node).filterMap pick).Perm (preorderOf ascents node)
  | ⟨kind, field, span, children⟩ => by
      have below := picked_eventsOfList_perm one ⟨kind, field, span, children⟩ ascents 0 children
      rw [List.filterMap_eq_flatMap_toList] at below ⊢
      rw [eventsOf, preorderOf, List.flatMap_cons, List.flatMap_append, List.flatMap_singleton]
      -- The node may be picked before or behind the nodes below it.
      apply (List.perm_append_comm.append_left _).trans
      rw [← List.append_assoc, one]
      exact below.cons _

private theorem picked_eventsOfList_perm (one : Event.PicksOne pick) (parent : Node)
    (ascents : List Ascent) (index : Nat) :
    (nodes : List Node) →
      ((eventsOfList parent ascents index nodes).filterMap pick).Perm
        (preorderOfList parent ascents index nodes)
  | [] => List.Perm.refl []
  | node :: rest => by
      rw [eventsOfList, preorderOfList, List.filterMap_append]
      apply List.Perm.append
      · exact picked_eventsOf_perm one _ node
      · exact picked_eventsOfList_perm one parent ascents (index + 1) rest

end

theorem picked_walk_perm (one : Event.PicksOne pick) (tree : Node) :
    (tree.walk.filterMap pick).Perm tree.cursors := by
  rw [tree.walk_eq_traversal]
  exact picked_eventsOf_perm one [] tree

end Picked

/-- The events between entering a node and leaving it. -/
def eventsBelow (cursor : Cursor) : List Event :=
  eventsOfList cursor.node cursor.ascents 0 cursor.node.children

theorem eventsOf_eq (cursor : Cursor) :
    eventsOf cursor.ascents cursor.node =
      .enter cursor :: (cursor.eventsBelow ++ [.leave cursor]) := by
  obtain ⟨⟨kind, field, span, children⟩, ascents⟩ := cursor
  rw [eventsOf]
  rfl

theorem preorder_eq (cursor : Cursor) :
    cursor.preorder =
      cursor :: preorderOfList cursor.node cursor.ascents 0 cursor.node.children := by
  obtain ⟨⟨kind, field, span, children⟩, ascents⟩ := cursor
  rw [preorder, preorderOf]

/-- The nodes met after a node in going through it are those that have it above them. -/
theorem LiesIn.mem_preorderOfList_iff {tree : Node} {cursor node : Cursor}
    (lies : LiesIn tree cursor) (nodeLies : LiesIn tree node) :
    node ∈ preorderOfList cursor.node cursor.ascents 0 cursor.node.children ↔
      cursor ∈ node.ancestors := by
  have through : node ∈ cursor.preorder ↔ _ := mem_preorder_iff lies
  have distinct := nodup_address_preorder cursor
  rw [preorder_eq] at through distinct
  rw [List.map_cons, List.nodup_cons] at distinct
  constructor
  · intro member
    have above := (through.mp (List.mem_cons_of_mem cursor member)).2
    rcases List.mem_cons.mp above with rfl | higher
    · exact absurd (List.mem_map_of_mem member) distinct.1
    · exact higher
  · intro above
    have met := through.mpr ⟨nodeLies, List.mem_cons_of_mem node above⟩
    rcases List.mem_cons.mp met with rfl | below
    · exact absurd rfl (address_ne_of_mem_ancestors above)
    · exact below

/-- Between entering a node and leaving it, the nodes below it have their events. -/
theorem LiesIn.exists_event_below_iff {tree : Node} {cursor node : Cursor}
    {pick : Event → Option Cursor} (lies : LiesIn tree cursor) (nodeLies : LiesIn tree node)
    (one : Event.PicksOne pick) :
    (∃ event ∈ cursor.eventsBelow, pick event = some node) ↔ cursor ∈ node.ancestors := by
  rw [← List.mem_filterMap, eventsBelow, (picked_eventsOfList_perm one _ _ _ _).mem_iff]
  exact lies.mem_preorderOfList_iff nodeLies

/-- The events of a child stand among those of its siblings, and the events of the later
siblings follow. -/
theorem exists_eventsOfList_eq {parent node : Node} {ascents : List Ascent} {start index : Nat}
    {nodes : List Node} (found : nodes[index]? = some node) :
    ∃ front, eventsOfList parent ascents start nodes =
      front ++ (eventsOf (⟨parent, start + index⟩ :: ascents) node ++
        eventsOfList parent ascents (start + index + 1) (nodes.drop (index + 1))) := by
  induction nodes generalizing start index with
  | nil => simp at found
  | cons first rest ih =>
      rw [eventsOfList]
      cases index with
      | zero =>
          obtain rfl : first = node := by simpa using found
          exact ⟨[], rfl⟩
      | succ index =>
          have foundRest : rest[index]? = some node := by simpa using found
          obtain ⟨front, restEq⟩ := @ih (start + 1) index foundRest
          refine ⟨eventsOf (⟨parent, start⟩ :: ascents) first ++ front, ?_⟩
          rw [restEq, Nat.add_right_comm start 1 index, List.append_assoc]
          rfl

/-- The events of a subtree stand together in the walk, and right behind them the next
sibling is entered. -/
theorem LiesIn.exists_walk_eq {tree : Node} {cursor : Cursor} (lies : LiesIn tree cursor) :
    ∃ before after,
      tree.walk = before ++ (eventsOf cursor.ascents cursor.node ++ after) ∧
        ∀ sibling, cursor.nextSibling? = some sibling →
          after.head? = some (.enter sibling) := by
  induction lies with
  | root =>
      refine ⟨[], [], ?_, ?_⟩
      · rw [tree.walk_eq_traversal, List.append_nil]
        rfl
      · intro sibling found
        cases found
  | @child parent cursor index above found ih =>
      obtain ⟨before, after, walkEq, -⟩ := ih
      obtain ⟨nodeFound, ascentsEq⟩ := child?_eq_some_iff.mp found
      obtain ⟨front, belowEq⟩ :=
        @exists_eventsOfList_eq parent.node _ parent.ascents 0 index _ nodeFound
      rw [Nat.zero_add, ← ascentsEq] at belowEq
      refine ⟨before ++ .enter parent :: front,
        eventsOfList parent.node parent.ascents (index + 1)
          (parent.node.children.drop (index + 1)) ++ .leave parent :: after, ?_, ?_⟩
      · rw [walkEq, eventsOf_eq parent, eventsBelow, belowEq]
        simp
      · intro sibling siblingFound
        rw [nextSibling?, ascentsEq] at siblingFound
        obtain ⟨node, nextFound, rfl⟩ := Option.map_eq_some_iff.mp siblingFound
        obtain ⟨bound, rfl⟩ := List.getElem?_eq_some_iff.mp nextFound
        rw [List.drop_eq_getElem_cons bound, eventsOfList, eventsOf_eq ⟨_, _⟩]
        rfl

/-- What is done for a node in a walk over its tree: entering it is followed by what is
done for the nodes below it, by leaving it, and then by entering the next sibling. -/
structure Visit (tree : Node) (cursor : Cursor) (before inside after : List Event) : Prop where
  split : tree.walk = before ++ .enter cursor :: (inside ++ .leave cursor :: after)
  entered : ∀ node ∈ tree.cursors, .enter node ∈ inside ↔ cursor ∈ node.ancestors
  left : ∀ node ∈ tree.cursors, .leave node ∈ inside ↔ cursor ∈ node.ancestors
  sibling : ∀ sibling, cursor.nextSibling? = some sibling → after.head? = some (.enter sibling)

theorem LiesIn.exists_visit {tree : Node} {cursor : Cursor} (lies : LiesIn tree cursor) :
    ∃ before after, Visit tree cursor before cursor.eventsBelow after := by
  obtain ⟨before, after, walkEq, sibling⟩ := lies.exists_walk_eq
  refine ⟨before, after, ?_, ?_, ?_, sibling⟩
  · rw [walkEq, eventsOf_eq]
    simp
  · intro node inTree
    rw [← lies.exists_event_below_iff (mem_cursors_iff.mp inTree) Event.picksOne_entered?]
    simp [Event.entered?_eq_some_iff]
  · intro node inTree
    rw [← lies.exists_event_below_iff (mem_cursors_iff.mp inTree) Event.picksOne_left?]
    simp [Event.left?_eq_some_iff]

end Cursor

/-- A walk over a tree is its recursive traversal. -/
structure Node.IsWalkedDepthFirst (tree : Node) : Prop where
  /-- The loops end, and the events that they make until then are those of the walk. -/
  ends : ∀ events,
    (Walk.Phase.arrived (Cursor.root tree) []).Ends events ↔ events = tree.walk
  traversal : tree.walk = tree.traversal
  /-- Every node is entered once, parents before children and children in order. -/
  entered : tree.walk.filterMap Event.entered? = tree.cursors
  /-- Every node is left once. -/
  left : (tree.walk.filterMap Event.left?).Perm tree.cursors
  distinct : (tree.cursors.map Cursor.address).Nodup
  visits : ∀ cursor ∈ tree.cursors, ∃ before inside after,
    Cursor.Visit tree cursor before inside after

/-- Every tree is walked over in the order of the recursive traversal, and the loops end. -/
theorem Node.loops_make_recursive_traversal (tree : Node) : tree.IsWalkedDepthFirst := by
  have ends := Walk.ends_walk tree
  constructor
  case ends =>
    intro events
    constructor
    · exact fun ends' => ends'.unique ends
    · rintro rfl
      exact ends
  case traversal => exact tree.walk_eq_traversal
  case entered => exact tree.filterMap_entered?_walk
  case left => exact Cursor.picked_walk_perm Event.picksOne_left? tree
  case distinct => exact Cursor.nodup_address_cursors tree
  case visits =>
    intro cursor inTree
    obtain ⟨before, after, visit⟩ := (Cursor.mem_cursors_iff.mp inTree).exists_visit
    exact ⟨before, cursor.eventsBelow, after, visit⟩

end AssertLint
