import AssertLint.Proofs.Tree.Nesting
import AssertLint.Proofs.Value.Access

/-!
# What stands beside the parts of an expression

The nodes of parentheses, calls and member accesses have children that are not
parts of the expression: signs and comments.  In the tree of a script they have no
others, so a node below an expression is below one of its parts or beside them.
-/

namespace AssertLint

open StateTransition

/-- The kinds of nodes that stand beside the parts of an expression. -/
def Kind.isAside : Kind → Bool
  | comment | htmlComment | optionalChain | token _ => true
  | _ => false

namespace Cursor

/-- Apart from asides, a node has at most one child in each of the given fields and no
others. -/
structure HasOnly (cursor : Cursor) (fields : List Field) : Prop where
  atMostOne : ∀ field ∈ fields, cursor.HasAtMostOne field
  noOther : ∀ child ∈ cursor.children, child.kind.isAside = true ∨
    ∃ field ∈ fields, child.node.field = some field

instance (cursor : Cursor) (fields : List Field) : Decidable (cursor.HasOnly fields) :=
  decidable_of_iff
    ((∀ field ∈ fields, cursor.HasAtMostOne field) ∧
      ∀ child ∈ cursor.children, child.kind.isAside = true ∨
        ∃ field ∈ fields, child.node.field = some field)
    ⟨fun ⟨atMostOne, noOther⟩ => ⟨atMostOne, noOther⟩,
      fun hasOnly => ⟨hasOnly.atMostOne, hasOnly.noOther⟩⟩

/-- The children that are no asides. -/
def mainChildren (cursor : Cursor) : List Cursor :=
  cursor.children.filter fun child => !child.kind.isAside

theorem mem_mainChildren_iff {cursor child : Cursor} :
    child ∈ cursor.mainChildren ↔ child ∈ cursor.children ∧ child.kind.isAside = false := by
  simp [mainChildren]

end Cursor

/-- What the grammar of scripts says about parentheses, calls and member accesses. -/
structure Node.FollowsGrammar (tree : Node) : Prop where
  parentheses : ∀ node ∈ tree.cursors, node.kind = .parenthesizedExpression →
    node.mainChildren.length ≤ 1
  call : ∀ node ∈ tree.cursors, node.kind = .callExpression →
    node.HasOnly [.callee, .arguments]
  access : ∀ node ∈ tree.cursors, node.kind = .memberExpression →
    node.HasOnly [.object, .property]

instance (tree : Node) : Decidable tree.FollowsGrammar :=
  decidable_of_iff
    ((∀ node ∈ tree.cursors, node.kind = .parenthesizedExpression →
        node.mainChildren.length ≤ 1) ∧
      (∀ node ∈ tree.cursors, node.kind = .callExpression →
        node.HasOnly [.callee, .arguments]) ∧
      ∀ node ∈ tree.cursors, node.kind = .memberExpression → node.HasOnly [.object, .property])
    ⟨fun ⟨parentheses, call, access⟩ => ⟨parentheses, call, access⟩,
      fun grammar => ⟨grammar.parentheses, grammar.call, grammar.access⟩⟩

namespace Cursor

/-- A child is an aside or the one in a field. -/
theorem HasOnly.aside_or_field? {cursor child : Cursor} {fields : List Field}
    (hasOnly : cursor.HasOnly fields) (member : child ∈ cursor.children) :
    child.kind.isAside = true ∨ ∃ field ∈ fields, cursor.field? field = some child := by
  rcases hasOnly.noOther child member with isAside | ⟨field, fieldMem, inField⟩
  · exact Or.inl isAside
  · refine Or.inr ⟨field, fieldMem, ?_⟩
    exact (hasOnly.atMostOne field fieldMem).field?_eq (mem_childrenIn_iff.mpr ⟨member, inField⟩)

theorem isAside_or_mem_contentChildren {cursor child : Cursor} (member : child ∈ cursor.children) :
    child.kind.isAside = true ∨ child ∈ cursor.contentChildren := by
  rw [contentChildren, namedChildren, List.mem_filter, List.mem_filter, isNamed]
  cases kindEq : child.kind <;> simp [Kind.isAside, Kind.isNamed, member]

/-- A node is, or is below, an aside that stands below another node. -/
def InAside (top node : Cursor) : Prop :=
  ∃ aside ∈ node.selfAndAncestors, aside.kind.isAside = true ∧ top ∈ aside.ancestors

theorem InAside.of_child {top node aside : Cursor} (isAside : aside.kind.isAside = true)
    (isChild : aside ∈ top.children) (below : aside ∈ node.selfAndAncestors) : InAside top node :=
  ⟨aside, below, isAside, mem_ancestors_of_mem_children isChild⟩

theorem InAside.of_mem_selfAndAncestors {top middle node : Cursor} (inAside : InAside middle node)
    (above : top ∈ middle.selfAndAncestors) : InAside top node := by
  obtain ⟨aside, below, isAside, inside⟩ := inAside
  refine ⟨aside, below, isAside, ?_⟩
  rcases List.mem_cons.mp above with rfl | higher
  · exact inside
  · exact mem_ancestors_of_mem_ancestors (List.mem_cons_of_mem aside inside) higher

/-- A node below another one is that node or below one of its children. -/
theorem LiesIn.eq_or_below_child {tree : Node} {node cursor : Cursor} (lies : LiesIn tree node)
    (above : cursor ∈ node.selfAndAncestors) :
    node = cursor ∨ ∃ child ∈ cursor.children, child ∈ node.selfAndAncestors := by
  rcases List.mem_cons.mp above with rfl | higher
  · exact Or.inl rfl
  · exact Or.inr (exists_child_of_mem_ancestors lies higher)

end Cursor

end AssertLint
