import AssertLint.Proofs.Tree.Cursor
import AssertLint.Tree.Walk

/-!
# The walk is the recursive traversal

A walk that has come to a node goes through the whole subtree of the node and
then on to the next sibling of the node or of an ancestor.  The nodes of the
subtree may stay on the stack until then.  Since the cursor never turns up
deeper than they are, taking them off at once gives the same events.

So what holds of a state that is changed at every event can be shown by going
through the tree: the nodes that are open are always the ancestors of the next
one.
-/

namespace AssertLint

namespace Walk

theorem depth_le_of_siblingAlong {node : Node} {ascents : List Ascent} {following : Cursor}
    (found : siblingAlong node ascents = some following) :
    following.depth ≤ ascents.length := by
  induction ascents generalizing node with
  | nil => simp [siblingAlong] at found
  | cons ascent rest ih =>
      rw [siblingAlong] at found
      split at found
      next sibling siblingFound =>
        obtain rfl := Option.some.inj found
        obtain ⟨-, -, rfl⟩ := Option.map_eq_some_iff.mp siblingFound
        simp [Cursor.depth]
      next =>
        have shallower := ih found
        rw [List.length_cons]
        omega

theorem unwind_eq_self {depth : Nat} {stack : List Cursor} (low : stack.length ≤ depth) :
    unwind depth stack = ([], stack) := by
  cases stack with
  | nil => rfl
  | cons top below =>
      rw [List.length_cons] at low
      rw [unwind, if_neg (by omega)]

/-- A node on top of the stack that is not above the cursor is left first. -/
theorem run_cons {remaining : Nat} {cursor top : Cursor} {below : List Cursor}
    (shallow : cursor.depth ≤ below.length) :
    run remaining cursor (top :: below) = .leave top :: run remaining cursor below := by
  cases remaining with
  | zero => rfl
  | succ remaining =>
      rw [run, run, unwind, if_pos (by omega)]
      rfl

/-- The events after the subtree of a node: the walk goes on at the next sibling
of the node or of an ancestor, if there is one. -/
def finish (remaining : Nat) (node : Node) (ascents : List Ascent) (stack : List Cursor) :
    List Event :=
  match siblingAlong node ascents with
  | some following => run remaining following stack
  | none => stack.map .leave

theorem finish_cons {remaining : Nat} {node : Node} {ascents : List Ascent} {top : Cursor}
    {below : List Cursor} (high : ascents.length ≤ below.length) :
    finish remaining node ascents (top :: below) =
      .leave top :: finish remaining node ascents below := by
  unfold finish
  cases found : siblingAlong node ascents with
  | none => rfl
  | some following =>
      have shallow := depth_le_of_siblingAlong found
      exact run_cons (by omega)

/-- The events from the child of `parent` with the given index on, where the list
holds that child and those after it. -/
def runList (remaining : Nat) (parent : Node) (ascents : List Ascent) (index : Nat) :
    List Node → List Cursor → List Event
  | [], stack => finish remaining parent ascents stack
  | first :: rest, stack =>
      run (Node.sizeOfList (first :: rest) + remaining) ⟨first, ⟨parent, index⟩ :: ascents⟩
        stack

theorem finish_child {remaining index : Nat} {node parent : Node} {ascents : List Ascent}
    {rest : List Node} {stack : List Cursor}
    (dropped : parent.children.drop (index + 1) = rest) :
    finish (Node.sizeOfList rest + remaining) node (⟨parent, index⟩ :: ascents) stack =
      runList remaining parent ascents (index + 1) rest stack := by
  have headFound : parent.children[index + 1]? = rest.head? := by
    rw [← dropped, List.head?_drop]
  cases rest with
  | nil =>
      have last : parent.children[index + 1]? = none := headFound
      simp [runList, finish, siblingAlong, Cursor.nextSibling?, last, Node.sizeOfList]
  | cons next others =>
      have found : parent.children[index + 1]? = some next := headFound
      simp [runList, finish, siblingAlong, Cursor.nextSibling?, found]

theorem run_node {remaining : Nat} {kind : Kind} {field : Option Field} {span : Span}
    {children : List Node} {ascents : List Ascent} {stack : List Cursor}
    (fits : stack.length = ascents.length) :
    run (Node.sizeOfList children + remaining + 1) ⟨⟨kind, field, span, children⟩, ascents⟩
        stack =
      .enter ⟨⟨kind, field, span, children⟩, ascents⟩ ::
        runList remaining ⟨kind, field, span, children⟩ ascents 0 children
          (⟨⟨kind, field, span, children⟩, ascents⟩ :: stack) := by
  rw [run, unwind_eq_self (show stack.length ≤ Cursor.depth ⟨_, ascents⟩ from Nat.le_of_eq fits)]
  cases children with
  | nil =>
      rw [Node.sizeOfList, Nat.zero_add]
      rfl
  | cons first rest => rfl

mutual

private theorem run_eq_eventsOf (remaining : Nat) (ascents : List Ascent)
    (stack : List Cursor) (fits : stack.length = ascents.length) :
    (node : Node) →
      run (node.size + remaining) ⟨node, ascents⟩ stack =
        Cursor.eventsOf ascents node ++ finish remaining node ascents stack
  | ⟨kind, field, span, children⟩ => by
      rw [Node.size, Nat.add_right_comm, run_node fits, Cursor.eventsOf,
        runList_eq_eventsOfList remaining ascents ⟨kind, field, span, children⟩ 0 _
          (by simp [fits]) children rfl,
        finish_cons (Nat.le_of_eq fits.symm)]
      simp

private theorem runList_eq_eventsOfList (remaining : Nat) (ascents : List Ascent)
    (parent : Node) (index : Nat) (stack : List Cursor)
    (fits : stack.length = ascents.length + 1) :
    (nodes : List Node) → parent.children.drop index = nodes →
      runList remaining parent ascents index nodes stack =
        Cursor.eventsOfList parent ascents index nodes ++
          finish remaining parent ascents stack
  | [], _ => by
      rw [runList, Cursor.eventsOfList, List.nil_append]
  | first :: rest, dropped => by
      have droppedRest := Cursor.drop_succ_of_drop_eq dropped
      rw [runList, Node.sizeOfList, Nat.add_assoc,
        run_eq_eventsOf _ (⟨parent, index⟩ :: ascents) stack fits first,
        finish_child droppedRest,
        runList_eq_eventsOfList remaining ascents parent (index + 1) stack fits rest
          droppedRest,
        Cursor.eventsOfList, List.append_assoc]

end

end Walk

/-- The walk makes the events of the recursive traversal. -/
theorem Node.walk_eq_traversal (tree : Node) : tree.walk = tree.traversal := by
  have whole := Walk.run_eq_eventsOf 0 [] [] rfl tree
  rw [Walk.finish, Walk.siblingAlong] at whole
  simpa [Node.walk, Node.traversal, Cursor.root] using whole

namespace Event

/-- The node that an event enters, if it enters one. -/
def entered? : Event → Option Cursor
  | .enter cursor => some cursor
  | .leave _ => none

/-- The nodes that are open just before an event of a walk, the innermost first. -/
def openBefore : Event → List Cursor
  | .enter cursor => cursor.ancestors
  | .leave cursor => cursor.selfAndAncestors

end Event

/-- A property of a state that is changed at every event of a walk, the nodes
entered so far, and those that are still open, the innermost first.  It survives
entering a node below the open ones and leaving the innermost one. -/
structure Node.WalkInvariant {σ : Type} (tree : Node) (step : σ → Event → σ)
    (motive : σ → List Cursor → List Cursor → Prop) : Prop where
  enter : ∀ state entered cursor, cursor ∈ tree.cursors →
    cursor.address ∉ entered.map Cursor.address → motive state entered cursor.ancestors →
      motive (step state (.enter cursor)) (entered ++ [cursor]) cursor.selfAndAncestors
  leave : ∀ state entered cursor, cursor ∈ tree.cursors →
    motive state entered cursor.selfAndAncestors →
      motive (step state (.leave cursor)) entered cursor.ancestors

namespace Node.WalkInvariant

variable {σ : Type} {tree : Node} {step : σ → Event → σ}
  {motive : σ → List Cursor → List Cursor → Prop}

mutual

private theorem foldl_eventsOf (invariant : tree.WalkInvariant step motive)
    {ascents : List Ascent} :
    (node : Node) → {state : σ} → {entered : List Cursor} →
      Cursor.LiesIn tree ⟨node, ascents⟩ →
      ((entered ++ Cursor.preorderOf ascents node).map Cursor.address).Nodup →
      motive state entered (Cursor.ancestorsAlong ascents) →
      motive ((Cursor.eventsOf ascents node).foldl step state)
        (entered ++ Cursor.preorderOf ascents node) (Cursor.ancestorsAlong ascents)
  | ⟨kind, field, span, children⟩, state, entered, lies, nodup, holds => by
      have inTree := Cursor.mem_cursors_iff.mpr lies
      rw [Cursor.preorderOf, List.append_cons] at nodup ⊢
      rw [Cursor.eventsOf, List.foldl_cons, List.foldl_append]
      have fresh : Cursor.address ⟨⟨kind, field, span, children⟩, ascents⟩ ∉
          entered.map Cursor.address := by
        rw [List.append_assoc, List.map_append, List.nodup_append] at nodup
        intro already
        exact nodup.2.2 _ already _ (by simp) rfl
      have opened := invariant.enter state entered _ inTree fresh holds
      have through := foldl_eventsOfList invariant children lies rfl nodup opened
      exact invariant.leave _ _ _ inTree through

private theorem foldl_eventsOfList (invariant : tree.WalkInvariant step motive)
    {parent : Node} {ascents : List Ascent} {index : Nat} :
    (nodes : List Node) → {state : σ} → {entered : List Cursor} →
      Cursor.LiesIn tree ⟨parent, ascents⟩ → parent.children.drop index = nodes →
      ((entered ++ Cursor.preorderOfList parent ascents index nodes).map
        Cursor.address).Nodup →
      motive state entered (Cursor.selfAndAncestors ⟨parent, ascents⟩) →
      motive ((Cursor.eventsOfList parent ascents index nodes).foldl step state)
        (entered ++ Cursor.preorderOfList parent ascents index nodes)
        (Cursor.selfAndAncestors ⟨parent, ascents⟩)
  | [], state, entered, _, _, _, holds => by
      rw [Cursor.preorderOfList, List.append_nil]
      exact holds
  | node :: rest, state, entered, lies, dropped, nodup, holds => by
      rw [Cursor.preorderOfList, ← List.append_assoc] at nodup ⊢
      rw [Cursor.eventsOfList, List.foldl_append]
      have nodupFirst := (List.nodup_append.mp (List.map_append ▸ nodup)).1
      have lower := Cursor.LiesIn.child lies (Cursor.child?_of_drop_eq dropped)
      have through := foldl_eventsOf invariant node lower nodupFirst holds
      exact foldl_eventsOfList invariant rest lies (Cursor.drop_succ_of_drop_eq dropped) nodup
        through

end

/-- What survives every event and holds at the start holds after the walk. -/
theorem foldl_walk (invariant : tree.WalkInvariant step motive) {state : σ}
    (start : motive state [] []) :
    motive (tree.walk.foldl step state) tree.cursors [] := by
  rw [tree.walk_eq_traversal]
  exact invariant.foldl_eventsOf tree Cursor.LiesIn.root (Cursor.nodup_address_cursors tree)
    start

/-- What is known after some events of a walk: the property holds, and it held
before each of the events. -/
structure HeldAlong (step : σ → Event → σ) (motive : σ → List Cursor → List Cursor → Prop)
    (state : σ) (events : List Event) (entered opened : List Cursor) : Prop where
  entered_eq : entered = events.filterMap Event.entered?
  now : motive (events.foldl step state) entered opened
  earlier : ∀ front event rest, events = front ++ event :: rest →
    motive (front.foldl step state) (front.filterMap Event.entered?) event.openBefore

theorem HeldAlong.concat {state : σ} {events : List Event} {entered opened : List Cursor}
    (event : Event) (held : HeldAlong step motive state events entered event.openBefore)
    (next : motive (step (events.foldl step state) event) (entered ++ event.entered?.toList)
      opened) :
    HeldAlong step motive state (events ++ [event]) (entered ++ event.entered?.toList)
      opened := by
  constructor
  case entered_eq =>
    rw [held.entered_eq, List.filterMap_append]
    cases event <;> rfl
  case now => rwa [List.foldl_append]
  case earlier =>
    intro front earlierEvent rest split
    rcases List.eq_nil_or_concat rest with rfl | ⟨others, last, rfl⟩
    · obtain ⟨rfl, isLast⟩ := List.append_inj' split rfl
      obtain rfl := List.singleton_inj.mp isLast
      rw [← held.entered_eq]
      exact held.now
    · rw [List.concat_eq_append, ← List.cons_append, ← List.append_assoc] at split
      exact held.earlier front earlierEvent others (List.append_inj' split rfl).1

/-- The walk is followed with the list of all events so far as the state. -/
theorem heldAlong_walk (invariant : tree.WalkInvariant step motive) (state : σ)
    (start : motive state [] []) :
    HeldAlong step motive state tree.walk tree.cursors [] := by
  have along : tree.WalkInvariant (fun events event => events ++ [event])
      (HeldAlong step motive state) := by
    constructor
    case enter =>
      intro events entered cursor inTree fresh held
      exact held.concat (.enter cursor)
        (invariant.enter _ entered cursor inTree fresh held.now)
    case leave =>
      intro events entered cursor inTree held
      have closed := invariant.leave _ entered cursor inTree held.now
      rw [← List.append_nil entered] at closed ⊢
      exact held.concat (.leave cursor) closed
  have startHeld : HeldAlong step motive state [] [] [] := ⟨rfl, start, by simp⟩
  have held := along.foldl_walk startHeld
  rw [List.foldl_append_eq_append, List.nil_append, ← List.flatMap_def,
    List.flatMap_singleton'] at held
  exact held

/-- What survives every event and holds at the start holds before every event of the
walk. -/
theorem foldl_before (invariant : tree.WalkInvariant step motive) {state : σ}
    (start : motive state [] []) {before after : List Event} {event : Event}
    (split : tree.walk = before ++ event :: after) :
    motive (before.foldl step state) (before.filterMap Event.entered?) event.openBefore :=
  (invariant.heldAlong_walk state start).earlier before event after split

end Node.WalkInvariant

/-- The nodes of a tree are entered in order. -/
theorem Node.filterMap_entered?_walk (tree : Node) :
    tree.walk.filterMap Event.entered? = tree.cursors := by
  have invariant : tree.WalkInvariant (fun (state : Unit) _ => state) fun _ _ _ => True :=
    ⟨fun _ _ _ _ _ _ => trivial, fun _ _ _ _ _ => trivial⟩
  exact (invariant.heldAlong_walk () trivial).entered_eq.symm

end AssertLint
