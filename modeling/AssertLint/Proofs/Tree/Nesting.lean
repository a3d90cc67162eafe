import AssertLint.Proofs.Text.Ranges
import AssertLint.Proofs.Tree.Placement
import Mathlib.Data.List.Pairwise

/-!
# Nodes inside and outside of each other

Of two nodes of a well-placed tree one is above the other or their ranges are apart.
-/

namespace AssertLint

namespace Cursor

/-- The way from a node down to one below it goes through a child. -/
theorem exists_child_of_mem_ancestors {tree : Node} {cursor ancestor : Cursor}
    (lies : LiesIn tree cursor) (member : ancestor ∈ cursor.ancestors) :
    ∃ child ∈ ancestor.children, child ∈ cursor.selfAndAncestors := by
  induction lies with
  | root => simp [ancestors, Cursor.root, ancestorsAlong] at member
  | @child parent cursor index above found ih =>
      have isChild : cursor ∈ parent.children := mem_children_iff.mpr ⟨index, found⟩
      rw [ancestors_of_mem_children isChild] at member
      rcases List.mem_cons.mp member with rfl | higher
      · exact ⟨cursor, isChild, List.mem_cons_self⟩
      · obtain ⟨child, childMem, below⟩ := ih higher
        refine ⟨child, childMem, ?_⟩
        rw [selfAndAncestors, ancestors_of_mem_children isChild]
        exact List.mem_cons_of_mem cursor below

section Ranges

variable {source : Source} {tree : Node}

theorem LiesIn.isValid {cursor : Cursor} (lies : LiesIn tree cursor)
    (placed : tree.WellPlaced source) : source.isValid cursor.span = true :=
  (lies.wellPlaced placed).isValid

theorem LiesIn.within_of_mem_ancestors {cursor ancestor : Cursor} (lies : LiesIn tree cursor)
    (placed : tree.WellPlaced source) (member : ancestor ∈ cursor.ancestors) :
    cursor.span.Within ancestor.span := by
  induction lies with
  | root => simp [ancestors, Cursor.root, ancestorsAlong] at member
  | @child parent cursor index above found ih =>
      have isChild : cursor ∈ parent.children := mem_children_iff.mpr ⟨index, found⟩
      have inParent : cursor.span.Within parent.span :=
        within_of_mem_children (above.wellPlaced placed) isChild
      rw [ancestors_of_mem_children isChild] at member
      rcases List.mem_cons.mp member with rfl | higher
      · exact inParent
      · exact inParent.trans (ih higher)

theorem LiesIn.within_of_mem_selfAndAncestors {cursor ancestor : Cursor}
    (lies : LiesIn tree cursor) (placed : tree.WellPlaced source)
    (member : ancestor ∈ cursor.selfAndAncestors) : cursor.span.Within ancestor.span := by
  rcases List.mem_cons.mp member with rfl | higher
  · exact Span.Within.refl _
  · exact lies.within_of_mem_ancestors placed higher

theorem apart_of_mem_children {cursor first second : Cursor}
    (placed : cursor.node.WellPlaced source) (firstMem : first ∈ cursor.children)
    (secondMem : second ∈ cursor.children) (differ : first ≠ second) :
    first.span.Apart second.span := by
  have pairwise : cursor.children.Pairwise fun first second => first.span.Apart second.span :=
    (pairwise_children placed).imp Or.inl
  exact pairwise.forall firstMem secondMem differ

/-- Two nodes of a tree are above each other or apart. -/
theorem LiesIn.above_or_apart {first second : Cursor} (firstIn : LiesIn tree first)
    (secondIn : LiesIn tree second) (placed : tree.WellPlaced source) :
    first ∈ second.ancestors ∨ second ∈ first.selfAndAncestors ∨
      first.span.Apart second.span := by
  induction firstIn with
  | root =>
      rcases secondIn.eq_root_or_mem_ancestors with rfl | below
      · exact Or.inr (Or.inl List.mem_cons_self)
      · exact Or.inl below
  | @child parent first index above found ih =>
      have isChild : first ∈ parent.children := mem_children_iff.mpr ⟨index, found⟩
      have parentPlaced := above.wellPlaced placed
      rcases ih with parentAbove | higher | apart
      · -- Below the parent, the other node is below one of its children.
        obtain ⟨child, childMem, below⟩ := exists_child_of_mem_ancestors secondIn parentAbove
        by_cases same : first = child
        · subst same
          rcases List.mem_cons.mp below with rfl | higher
          · exact Or.inr (Or.inl List.mem_cons_self)
          · exact Or.inl higher
        · have apart := (apart_of_mem_children parentPlaced isChild childMem same).symm
          have inChild := secondIn.within_of_mem_selfAndAncestors placed below
          exact Or.inr (Or.inr (apart.of_within inChild).symm)
      · right
        left
        rw [selfAndAncestors, ancestors_of_mem_children isChild]
        exact List.mem_cons_of_mem first higher
      · have inParent : first.span.Within parent.span :=
          within_of_mem_children parentPlaced isChild
        exact Or.inr (Or.inr (apart.of_within inParent))

end Ranges

end Cursor

end AssertLint
