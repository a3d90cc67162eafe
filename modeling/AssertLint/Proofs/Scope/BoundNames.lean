import AssertLint.Proofs.Tree.Cursor
import AssertLint.Scope.BoundNames

/-!
# Binding positions in patterns

A pattern binds the names that are reached from it through the parts that take
values: elements, targets of defaults, values of pairs and rests.  The names come
in the order of the nodes, each once, and everything between a name and the
pattern is a pattern too.
-/

namespace AssertLint

namespace Cursor

mutual

private theorem child_induction_of_node {motive : Cursor → Prop}
    (fromChildren : ∀ cursor, (∀ child ∈ cursor.children, motive child) → motive cursor)
    (ascents : List Ascent) : (node : Node) → motive ⟨node, ascents⟩
  | ⟨kind, field, span, children⟩ => by
      apply fromChildren
      intro child member
      obtain ⟨index, found⟩ := mem_children_iff.mp member
      obtain ⟨nodeFound, ascentsEq⟩ := child?_eq_some_iff.mp found
      have nodeMem : child.node ∈ children := List.mem_of_getElem? nodeFound
      exact child_induction_of_list fromChildren child.ascents children child.node nodeMem

private theorem child_induction_of_list {motive : Cursor → Prop}
    (fromChildren : ∀ cursor, (∀ child ∈ cursor.children, motive child) → motive cursor)
    (ascents : List Ascent) : (nodes : List Node) → ∀ node ∈ nodes, motive ⟨node, ascents⟩
  | [], _, member => by simp at member
  | first :: rest, node, member => by
      rcases List.mem_cons.mp member with isFirst | later
      · rw [isFirst]
        exact child_induction_of_node fromChildren ascents first
      · exact child_induction_of_list fromChildren ascents rest node later

end

/-- Induction from the children of a node to the node. -/
theorem child_induction {motive : Cursor → Prop}
    (fromChildren : ∀ cursor, (∀ child ∈ cursor.children, motive child) → motive cursor)
    (cursor : Cursor) : motive cursor :=
  child_induction_of_node fromChildren cursor.ascents cursor.node

end Cursor

/-- The children of a pattern in which a part of it binds names. -/
def PatternPart.among (part : PatternPart) (pattern : Cursor) : List Cursor :=
  match part with
  | contents => pattern.contentChildren
  | firstContent => pattern.firstContent?.toList
  | inField field => (pattern.field? field).toList

namespace Cursor

private theorem boundNamesAmong_eq (part : PatternPart) (parent : Node)
    (ascents : List Ascent) (index : Nat) (nodes : List Node) :
    let held := (nodes.mapIdx fun place node =>
      (⟨node, ⟨parent, index + place⟩ :: ascents⟩ : Cursor)).filter (part.holds ·.node)
    boundNamesAmong part parent ascents index nodes =
      (if part.goesOn then held else held.take 1).flatMap boundNames := by
  induction nodes generalizing index with
  | nil => simp [boundNamesAmong]
  | cons node rest ih =>
      have shifted :
          (fun place node => (⟨node, ⟨parent, index + (place + 1)⟩ :: ascents⟩ : Cursor)) =
            fun place node => ⟨node, ⟨parent, index + 1 + place⟩ :: ascents⟩ := by
        funext place node
        rw [Nat.add_assoc, Nat.add_comm 1]
      simp only at ih ⊢
      rw [boundNamesAmong, List.mapIdx_cons, Nat.add_zero, shifted, ih]
      cases holds : part.holds node <;> cases goes : part.goesOn <;>
        simp [holds, boundNames]

private theorem among_eq (part : PatternPart) (pattern : Cursor) :
    part.among pattern =
      let held := pattern.children.filter (part.holds ·.node)
      if part.goesOn then held else held.take 1 := by
  have contents : pattern.contentChildren =
      pattern.children.filter (PatternPart.contents.holds ·.node) := by
    rw [contentChildren, namedChildren, List.filter_filter]
    apply List.filter_congr
    intro child _
    rw [Bool.and_comm]
    rfl
  cases part with
  | contents => exact contents
  | firstContent =>
      change pattern.firstContent?.toList = List.take 1 _
      rw [firstContent?, contents, List.take_one]
      rfl
  | inField field =>
      change (pattern.field? field).toList = List.take 1 _
      rw [field?, List.take_one, List.head?_filter]
      rfl

theorem among_sublist_children (part : PatternPart) (pattern : Cursor) :
    (part.among pattern).Sublist pattern.children := by
  rw [among_eq]
  change List.Sublist (if part.goesOn then _ else _) pattern.children
  split
  · exact List.filter_sublist
  · exact (List.take_sublist _ _).trans List.filter_sublist

/-- The names of a pattern are those of the children in which it binds names. -/
theorem boundNames_eq (pattern : Cursor) :
    pattern.boundNames =
      if pattern.kind.isBoundName then [pattern]
      else match pattern.kind.patternPart? with
        | some part => (part.among pattern).flatMap boundNames
        | none => [] := by
  obtain ⟨⟨kind, field, span, children⟩, ascents⟩ := pattern
  rw [boundNames, boundNamesOf]
  change (if kind.isBoundName then _ else match kind.patternPart? with | some _ => _ | none => _) =
    if kind.isBoundName then _ else match kind.patternPart? with | some _ => _ | none => _
  congr 1
  cases kind.patternPart? with
  | none => rfl
  | some part =>
      change boundNamesAmong part _ ascents 0 children = (part.among _).flatMap boundNames
      rw [among_eq, boundNamesAmong_eq]
      simp only [Nat.zero_add]
      rfl

/-- A name stands in a binding position of a pattern. -/
inductive Binds : (pattern name : Cursor) → Prop where
  | name {cursor : Cursor} (isName : cursor.kind = .identifier ∨
      cursor.kind = .shorthandPropertyIdentifierPattern) : Binds cursor cursor
  | element {pattern child name : Cursor}
      (isList : pattern.kind = .objectPattern ∨ pattern.kind = .arrayPattern)
      (isElement : child ∈ pattern.contentChildren) (binds : Binds child name) :
      Binds pattern name
  | target {pattern child name : Cursor}
      (hasDefault : pattern.kind = .assignmentPattern ∨ pattern.kind = .objectAssignmentPattern)
      (isTarget : pattern.field? .left = some child) (binds : Binds child name) :
      Binds pattern name
  | value {pattern child name : Cursor} (isPair : pattern.kind = .pairPattern)
      (isValue : pattern.field? .value = some child) (binds : Binds child name) :
      Binds pattern name
  | rest {pattern child name : Cursor} (isRest : pattern.kind = .restPattern)
      (isContent : pattern.firstContent? = some child) (binds : Binds child name) :
      Binds pattern name

private theorem kind_of_isBoundName {kind : Kind} (isName : kind.isBoundName = true) :
    kind = .identifier ∨ kind = .shorthandPropertyIdentifierPattern := by
  cases kind <;> simp [Kind.isBoundName] at isName ⊢

private theorem binds_of_among {pattern child name : Cursor} {part : PatternPart}
    (isPart : pattern.kind.patternPart? = some part) (member : child ∈ part.among pattern)
    (binds : child.Binds name) : pattern.Binds name := by
  unfold Kind.patternPart? at isPart
  split at isPart <;> cases isPart
  next isObject => exact Binds.element (Or.inl isObject) member binds
  next isArray => exact Binds.element (Or.inr isArray) member binds
  next isDefault => exact Binds.target (Or.inl isDefault) (Option.mem_toList.mp member) binds
  next isDefault => exact Binds.target (Or.inr isDefault) (Option.mem_toList.mp member) binds
  next isPair => exact Binds.value isPair (Option.mem_toList.mp member) binds
  next isRest => exact Binds.rest isRest (Option.mem_toList.mp member) binds

private theorem mem_children_of_mem_among {pattern child : Cursor} {part : PatternPart}
    (member : child ∈ part.among pattern) : child ∈ pattern.children := by
  cases part with
  | contents => exact mem_children_of_mem_contentChildren member
  | firstContent => exact mem_children_of_firstContent? (Option.mem_toList.mp member)
  | inField field => exact mem_children_of_field? (Option.mem_toList.mp member)

private theorem mem_boundNames_of_among {pattern child name : Cursor} {part : PatternPart}
    (isPart : pattern.kind.patternPart? = some part) (member : child ∈ part.among pattern)
    (bound : name ∈ child.boundNames) : name ∈ pattern.boundNames := by
  have notName : pattern.kind.isBoundName = false := by
    cases kindEq : pattern.kind <;> simp [kindEq, Kind.patternPart?] at isPart <;> rfl
  rw [boundNames_eq, notName, isPart]
  exact List.mem_flatMap.mpr ⟨child, member, bound⟩

theorem binds_of_mem_boundNames {pattern name : Cursor} (member : name ∈ pattern.boundNames) :
    pattern.Binds name := by
  induction pattern using child_induction with
  | fromChildren pattern ih =>
      rw [boundNames_eq] at member
      split at member
      next isName =>
        obtain rfl := List.mem_singleton.mp member
        exact Binds.name (kind_of_isBoundName isName)
      next =>
        cases isPart : pattern.kind.patternPart? with
        | none => simp [isPart] at member
        | some part =>
            rw [isPart] at member
            obtain ⟨child, childMem, nameMem⟩ := List.mem_flatMap.mp member
            exact binds_of_among isPart childMem
              (ih child (mem_children_of_mem_among childMem) nameMem)

theorem Binds.mem_boundNames {pattern name : Cursor} (binds : pattern.Binds name) :
    name ∈ pattern.boundNames := by
  induction binds with
  | name isName =>
      rw [boundNames_eq]
      rcases isName with isName | isName <;> simp [isName, Kind.isBoundName]
  | @element pattern _ _ isList isElement _ ih =>
      have isPart : pattern.kind.patternPart? = some .contents := by
        rcases isList with isList | isList <;> rw [isList] <;> rfl
      exact mem_boundNames_of_among isPart isElement ih
  | @target pattern _ _ hasDefault isTarget _ ih =>
      have isPart : pattern.kind.patternPart? = some (.inField .left) := by
        rcases hasDefault with isDefault | isDefault <;> rw [isDefault] <;> rfl
      exact mem_boundNames_of_among isPart (Option.mem_toList.mpr isTarget) ih
  | @value pattern _ _ isPair isValue _ ih =>
      have isPart : pattern.kind.patternPart? = some (.inField .value) := by rw [isPair]; rfl
      exact mem_boundNames_of_among isPart (Option.mem_toList.mpr isValue) ih
  | @rest pattern _ _ isRest isContent _ ih =>
      have isPart : pattern.kind.patternPart? = some .firstContent := by rw [isRest]; rfl
      exact mem_boundNames_of_among isPart (Option.mem_toList.mpr isContent) ih

/-- The names of a pattern are those in its binding positions. -/
theorem mem_boundNames_iff {pattern name : Cursor} :
    name ∈ pattern.boundNames ↔ pattern.Binds name :=
  ⟨binds_of_mem_boundNames, Binds.mem_boundNames⟩

theorem Binds.isName {pattern name : Cursor} (binds : pattern.Binds name) :
    name.kind = .identifier ∨ name.kind = .shorthandPropertyIdentifierPattern := by
  induction binds with
  | name isName => exact isName
  | element _ _ _ ih | target _ _ _ ih | value _ _ _ ih | rest _ _ _ ih => exact ih

/-- Induction from a bound name up through the patterns around it. -/
theorem Binds.upward {motive : Cursor → Cursor → Prop} (self : ∀ name, motive name name)
    (step : ∀ pattern child name, pattern.kind.patternPart?.isSome = true →
      child ∈ pattern.children → motive child name → motive pattern name)
    {pattern name : Cursor} (binds : pattern.Binds name) : motive pattern name := by
  induction binds with
  | name _ => exact self _
  | element isList isElement _ ih =>
      refine step _ _ _ ?_ (mem_children_of_mem_contentChildren isElement) ih
      rcases isList with isList | isList <;> rw [isList] <;> rfl
  | target hasDefault isTarget _ ih =>
      refine step _ _ _ ?_ (mem_children_of_field? isTarget) ih
      rcases hasDefault with isDefault | isDefault <;> rw [isDefault] <;> rfl
  | value isPair isValue _ ih =>
      refine step _ _ _ ?_ (mem_children_of_field? isValue) ih
      rw [isPair]
      rfl
  | rest isRest isContent _ ih =>
      refine step _ _ _ ?_ (mem_children_of_firstContent? isContent) ih
      rw [isRest]
      rfl

/-- A pattern is at or above the names that it binds. -/
theorem Binds.mem_selfAndAncestors {pattern name : Cursor} (binds : pattern.Binds name) :
    pattern ∈ name.selfAndAncestors := by
  refine binds.upward (motive := fun pattern name => pattern ∈ name.selfAndAncestors)
    (fun name => List.mem_cons_self) ?_
  intro pattern child name _ isChild childMem
  have above : pattern ∈ child.ancestors := by
    rw [ancestors_of_mem_children isChild]
    exact List.mem_cons_self
  exact List.mem_cons_of_mem name (mem_ancestors_of_mem_ancestors childMem above)

/-- Between a pattern and a name that it binds there are patterns only. -/
theorem Binds.find?_ancestors {pattern name : Cursor} (binds : pattern.Binds name)
    {sort : Cursor → Bool}
    (noPattern : ∀ cursor, cursor.kind.patternPart?.isSome = true → sort cursor = false) :
    name.ancestors.find? sort = pattern.ancestors.find? sort := by
  refine binds.upward (motive := fun pattern name =>
    name.ancestors.find? sort = pattern.ancestors.find? sort) (fun name => rfl) ?_
  intro pattern child name isPattern isChild childEq
  rw [childEq, ancestors_of_mem_children isChild,
    List.find?_cons_of_neg (by simp [noPattern pattern isPattern])]

mutual

private theorem boundNamesOf_sublist (ascents : List Ascent) :
    (node : Node) → (boundNamesOf ascents node).Sublist (preorderOf ascents node)
  | ⟨kind, field, span, children⟩ => by
      rw [boundNamesOf, preorderOf]
      split
      next => exact (List.nil_sublist _).cons_cons _
      next =>
        split
        next part _ =>
          exact (boundNamesAmong_sublist part _ ascents 0 children).cons _
        next => exact List.nil_sublist _

private theorem boundNamesAmong_sublist (part : PatternPart) (parent : Node)
    (ascents : List Ascent) (index : Nat) :
    (nodes : List Node) → (boundNamesAmong part parent ascents index nodes).Sublist
      (preorderOfList parent ascents index nodes)
  | [] => by simp [boundNamesAmong]
  | node :: rest => by
      have first := boundNamesOf_sublist (⟨parent, index⟩ :: ascents) node
      have others := boundNamesAmong_sublist part parent ascents (index + 1) rest
      rw [boundNamesAmong, preorderOfList]
      split
      next =>
        apply first.append
        split
        next => exact others
        next => exact List.nil_sublist _
      next => exact others.trans (List.sublist_append_right _ _)

end

theorem boundNames_sublist_preorder (pattern : Cursor) :
    pattern.boundNames.Sublist pattern.preorder :=
  boundNamesOf_sublist pattern.ascents pattern.node

end Cursor

end AssertLint
