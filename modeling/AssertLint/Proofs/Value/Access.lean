import AssertLint.Proofs.Tree.Chain
import AssertLint.Proofs.Tree.Cursor
import AssertLint.Value.Access

/-!
# The ends of parentheses and member accesses

Parentheses and member accesses are followed down the tree, so the size of the
node that a search starts from bounds its steps, and what the search finds is
where the chain ends.
-/

namespace AssertLint

open StateTransition

namespace Cursor

theorem mem_children_of_parenthesizedContent? {cursor content : Cursor}
    (found : cursor.parenthesizedContent? = some content) : content ∈ cursor.children := by
  unfold parenthesizedContent? at found
  split at found
  · exact mem_children_of_firstContent? found
  · simp at found

theorem mem_children_of_object? {cursor object : Cursor} (found : cursor.object? = some object) :
    object ∈ cursor.children := by
  unfold object? at found
  split at found
  · exact mem_children_of_field? found
  · exact mem_children_of_parenthesizedContent? found

/-- A search that goes to a child in every step ends within the size of the node
that it starts from. -/
theorem chainEnd_mem_eval_of_children {below? : Cursor → Option Cursor}
    (goesDown : ∀ cursor child, below? cursor = some child → child ∈ cursor.children)
    (cursor : Cursor) :
    chainEnd below? cursor.node.size cursor ∈ eval below? cursor := by
  apply chainEnd_mem_eval (fun _ => True) (fun start => start.node.size)
  · intro start child _ found
    exact ⟨trivial, size_lt_of_mem_children (goesDown start child found)⟩
  · exact trivial
  · exact Nat.le_refl _

theorem withoutParentheses_mem_eval (cursor : Cursor) :
    cursor.withoutParentheses ∈ eval parenthesizedContent? cursor :=
  chainEnd_mem_eval_of_children (fun _ _ => mem_children_of_parenthesizedContent?) cursor

theorem rootObject_mem_eval (cursor : Cursor) : cursor.rootObject ∈ eval object? cursor :=
  chainEnd_mem_eval_of_children (fun _ _ => mem_children_of_object?) cursor

/-- An identifier is the root of a chain exactly when the chain leads to it. -/
theorem rootObject_eq_iff {cursor root : Cursor} (isIdentifier : root.kind = .identifier) :
    cursor.rootObject = root ↔ Reaches object? cursor root := by
  have isEnd : root.object? = none := by
    simp [object?, parenthesizedContent?, isIdentifier]
  constructor
  · rintro rfl
    exact (mem_eval.mp cursor.rootObject_mem_eval).1
  · intro leads
    exact Part.mem_unique cursor.rootObject_mem_eval (mem_eval.mpr ⟨leads, isEnd⟩)

theorem LiesIn.of_reaches {tree : Node} {below? : Cursor → Option Cursor}
    (goesDown : ∀ cursor child, below? cursor = some child → child ∈ cursor.children)
    {cursor last : Cursor} (lies : LiesIn tree cursor) (leads : Reaches below? cursor last) :
    LiesIn tree last := by
  induction leads with
  | refl => exact lies
  | tail _ step above => exact above.of_mem_children (goesDown _ _ step)

theorem mem_selfAndAncestors_of_reaches {below? : Cursor → Option Cursor}
    (goesDown : ∀ cursor child, below? cursor = some child → child ∈ cursor.children)
    {cursor last : Cursor} (leads : Reaches below? cursor last) :
    cursor ∈ last.selfAndAncestors := by
  induction leads with
  | refl => exact List.mem_cons_self
  | @tail middle child _ step above =>
      rw [selfAndAncestors, ancestors_of_mem_children (goesDown middle child step)]
      exact List.mem_cons_of_mem child above

theorem LiesIn.withoutParentheses {tree : Node} {cursor : Cursor} (lies : LiesIn tree cursor) :
    LiesIn tree cursor.withoutParentheses :=
  lies.of_reaches (fun _ _ => mem_children_of_parenthesizedContent?)
    (mem_eval.mp cursor.withoutParentheses_mem_eval).1

theorem LiesIn.rootObject {tree : Node} {cursor : Cursor} (lies : LiesIn tree cursor) :
    LiesIn tree cursor.rootObject :=
  lies.of_reaches (fun _ _ => mem_children_of_object?)
    (mem_eval.mp cursor.rootObject_mem_eval).1

end Cursor

end AssertLint
