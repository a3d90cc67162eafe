import AssertLint.Proofs.Text.Cut
import AssertLint.Proofs.Tree.Cursor

/-!
# Trees over a source

In the tree of a source the ranges of children lie inside the range of their
parent and follow each other, and all of them can be cut out of the source.
This file brings these facts from the whole tree down to the children of any
node in it.
-/

namespace AssertLint

namespace Node

/-- What a parser promises about the tree of a source: ranges are nested, in
order and cut at characters, and in a call the callee stands before the
arguments. -/
structure WellFormed (source : Source) (tree : Node) : Prop where
  placed : tree.WellPlaced source
  calleeFirst : ∀ call ∈ tree.cursors, call.kind = .callExpression →
    ∀ callee ∈ call.field? .callee, ∀ arguments ∈ call.field? .arguments,
      callee.span.stop ≤ arguments.span.start

mutual

def decWellPlaced (source : Source) : (node : Node) → Decidable (node.WellPlaced source)
  | ⟨_, _, span, children⟩ =>
      have := decWellPlacedBetween source span.start span.stop children
      inferInstanceAs (Decidable (_ ∧ WellPlacedBetween source span.start span.stop children))

def decWellPlacedBetween (source : Source) :
    (low high : Nat) → (nodes : List Node) → Decidable (WellPlacedBetween source low high nodes)
  | low, high, [] => inferInstanceAs (Decidable (low ≤ high))
  | low, high, node :: rest =>
      have := decWellPlaced source node
      have := decWellPlacedBetween source node.span.stop high rest
      inferInstanceAs (Decidable (low ≤ node.span.start ∧ node.WellPlaced source ∧
        WellPlacedBetween source node.span.stop high rest))

end

instance (source : Source) (node : Node) : Decidable (node.WellPlaced source) :=
  decWellPlaced source node

instance (source : Source) (tree : Node) : Decidable (tree.WellFormed source) :=
  decidable_of_iff
    (tree.WellPlaced source ∧
      ∀ call ∈ tree.cursors, call.kind = .callExpression →
        ∀ callee ∈ call.field? .callee, ∀ arguments ∈ call.field? .arguments,
          callee.span.stop ≤ arguments.span.start)
    ⟨fun ⟨placed, calleeFirst⟩ => ⟨placed, calleeFirst⟩,
      fun wellFormed => ⟨wellFormed.placed, wellFormed.calleeFirst⟩⟩

theorem WellPlaced.isValid {source : Source} {node : Node} (placed : node.WellPlaced source) :
    source.isValid node.span = true := by
  cases node
  exact placed.1

theorem WellPlaced.children {source : Source} {node : Node} (placed : node.WellPlaced source) :
    WellPlacedBetween source node.span.start node.span.stop node.children := by
  cases node
  exact placed.2

theorem WellPlacedBetween.low_le_high {source : Source} {low high : Nat} {nodes : List Node}
    (placed : WellPlacedBetween source low high nodes) : low ≤ high := by
  induction nodes generalizing low with
  | nil => exact placed
  | cons node rest ih =>
      obtain ⟨lowLe, nodePlaced, restPlaced⟩ := placed
      have nodeOrdered := Source.start_le_stop_of_isValid nodePlaced.isValid
      have restLe := ih restPlaced
      omega

theorem WellPlacedBetween.of_mem {source : Source} {low high : Nat} {nodes : List Node}
    (placed : WellPlacedBetween source low high nodes) {node : Node} (member : node ∈ nodes) :
    node.WellPlaced source ∧ low ≤ node.span.start ∧ node.span.stop ≤ high := by
  induction nodes generalizing low with
  | nil => simp at member
  | cons first rest ih =>
      obtain ⟨lowLe, firstPlaced, restPlaced⟩ := placed
      rcases List.mem_cons.mp member with rfl | later
      · exact ⟨firstPlaced, lowLe, restPlaced.low_le_high⟩
      · obtain ⟨nodePlaced, behind, inside⟩ := ih restPlaced later
        have firstOrdered := Source.start_le_stop_of_isValid firstPlaced.isValid
        exact ⟨nodePlaced, by omega, inside⟩

theorem WellPlacedBetween.pairwise {source : Source} {low high : Nat} {nodes : List Node}
    (placed : WellPlacedBetween source low high nodes) :
    nodes.Pairwise fun first second => first.span.stop ≤ second.span.start := by
  induction nodes generalizing low with
  | nil => exact List.Pairwise.nil
  | cons first rest ih =>
      obtain ⟨-, -, restPlaced⟩ := placed
      exact List.pairwise_cons.mpr
        ⟨fun later member => (restPlaced.of_mem member).2.1, ih restPlaced⟩

/-- A program without children is well formed over any source. -/
theorem wellFormed_leaf (source : Source) :
    (leaf .program 0 source.byteLength).WellFormed source := by
  refine ⟨⟨Source.isValid_whole source, Nat.zero_le _⟩, ?_⟩
  intro call member isCall
  obtain rfl : call = Cursor.root (leaf .program 0 source.byteLength) :=
    List.mem_singleton.mp member
  simp [Cursor.root, Cursor.kind, leaf, ofChildren] at isCall

end Node

namespace Cursor

theorem node_mem_of_mem_children {cursor child : Cursor} (member : child ∈ cursor.children) :
    child.node ∈ cursor.node.children := by
  obtain ⟨index, found⟩ := mem_children_iff.mp member
  exact List.mem_of_getElem? (child?_eq_some_iff.mp found).1

/-- Every node of a well-placed tree is well placed. -/
theorem LiesIn.wellPlaced {source : Source} {tree : Node} {cursor : Cursor}
    (lies : LiesIn tree cursor) (placed : tree.WellPlaced source) :
    cursor.node.WellPlaced source := by
  induction lies with
  | root => exact placed
  | child above found ih =>
      exact (ih.children.of_mem (List.mem_of_getElem? (child?_eq_some_iff.mp found).1)).1

section Children

variable {source : Source} {cursor child : Cursor}

theorem wellPlaced_of_mem_children (placed : cursor.node.WellPlaced source)
    (member : child ∈ cursor.children) : child.node.WellPlaced source :=
  (placed.children.of_mem (node_mem_of_mem_children member)).1

/-- A child starts no earlier and ends no later than its parent. -/
theorem within_of_mem_children (placed : cursor.node.WellPlaced source)
    (member : child ∈ cursor.children) :
    cursor.span.start ≤ child.span.start ∧ child.span.stop ≤ cursor.span.stop :=
  (placed.children.of_mem (node_mem_of_mem_children member)).2

/-- The children of a node follow each other. -/
theorem pairwise_children (placed : cursor.node.WellPlaced source) :
    cursor.children.Pairwise fun first second => first.span.stop ≤ second.span.start := by
  rw [List.pairwise_iff_getElem]
  intro index later indexLt laterLt ordered
  simp only [children, List.getElem_mapIdx]
  exact List.pairwise_iff_getElem.mp placed.children.pairwise index later
    (by simpa [children] using indexLt) (by simpa [children] using laterLt) ordered

end Children

end Cursor

end AssertLint
