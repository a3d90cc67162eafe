import AssertLint.Proofs.Value.Asides

/-!
# Reading past asides

The content of parentheses and the first argument of a call are read off the contents
of a node, which are its named children without the comments.  Comments in the old
style of web pages are among the contents, but they are asides and no parts of an
expression.  This file compares the two readings: they agree unless an aside comes
first.
-/

namespace AssertLint

open StateTransition

namespace Cursor

/-- The first content is an aside. -/
def StartsWithAside (cursor : Cursor) : Prop :=
  ∃ first ∈ cursor.firstContent?, first.kind.isAside = true

/-- Some content is an aside. -/
def HoldsAside (cursor : Cursor) : Prop :=
  ∃ child ∈ cursor.contentChildren, child.kind.isAside = true

/-- The expression in parentheses, for a choice of the parts of a node. -/
def inParentheses? (parts : Cursor → List Cursor) (cursor : Cursor) : Option Cursor :=
  if cursor.kind = .parenthesizedExpression then (parts cursor).head? else none

/-- The object of a member access or the expression in parentheses, for a choice of the
parts of a node. -/
def accessed? (parts : Cursor → List Cursor) (cursor : Cursor) : Option Cursor :=
  if cursor.kind = .memberExpression then cursor.field? .object else cursor.inParentheses? parts

/-- Along a chain there are parentheses in which an aside comes first. -/
def IsObscured (next? : Cursor → Option Cursor) (cursor : Cursor) : Prop :=
  ∃ parentheses, Reaches next? cursor parentheses ∧
    parentheses.kind = .parenthesizedExpression ∧ parentheses.StartsWithAside

/-! ## The contents that are no asides -/

section Contents

variable {cursor child : Cursor}

theorem mainChildren_eq (cursor : Cursor) :
    cursor.mainChildren = cursor.contentChildren.filter fun child => !child.kind.isAside := by
  rw [contentChildren, namedChildren, List.filter_filter, List.filter_filter, mainChildren]
  apply List.filter_congr
  intro child _
  rw [isNamed]
  cases child.kind <;> rfl

theorem mem_mainChildren_iff_contentChildren :
    child ∈ cursor.mainChildren ↔ child ∈ cursor.contentChildren ∧ child.kind.isAside = false := by
  simp [mainChildren_eq]

theorem find?_mainChildren {kind : Kind} (isPart : kind.isAside = false) (cursor : Cursor) :
    cursor.mainChildren.find? (·.kind = kind) = cursor.contentChildren.find? (·.kind = kind) := by
  rw [mainChildren_eq, List.find?_filter]
  congr 1
  funext child
  by_cases isKind : child.kind = kind <;> simp [isKind, isPart]

/-- A content that comes first and is no aside is the first part. -/
theorem mainChildren_of_contentChildren_cons {others : List Cursor}
    (contents : cursor.contentChildren = child :: others) (isPart : child.kind.isAside = false) :
    ∃ others', cursor.mainChildren = child :: others' := by
  rw [mainChildren_eq, contents, List.filter_cons_of_pos (by simp [isPart])]
  exact ⟨_, rfl⟩

theorem head?_mainChildren (notFirst : ¬ cursor.StartsWithAside) :
    cursor.mainChildren.head? = cursor.contentChildren.head? := by
  cases contents : cursor.contentChildren with
  | nil => rw [mainChildren_eq, contents, List.filter_nil]
  | cons first others =>
      have isPart : first.kind.isAside = false := by
        by_contra isAside
        exact notFirst ⟨first, by rw [firstContent?, contents]; rfl, by simpa using isAside⟩
      obtain ⟨others', mainEq⟩ := mainChildren_of_contentChildren_cons contents isPart
      rw [mainEq]
      rfl

theorem head?_mainChildren_of_head? (isFirst : cursor.contentChildren.head? = some child)
    (isPart : child.kind.isAside = false) : cursor.mainChildren.head? = some child := by
  obtain ⟨others, contents⟩ := List.head?_eq_some_iff.mp isFirst
  obtain ⟨others', mainEq⟩ := mainChildren_of_contentChildren_cons contents isPart
  rw [mainEq]
  rfl

theorem not_startsWithAside (isFirst : cursor.contentChildren.head? = some child)
    (isPart : child.kind.isAside = false) : ¬ cursor.StartsWithAside := by
  rintro ⟨first, firstFound, isAside⟩
  obtain rfl := Option.some.inj (isFirst.symm.trans firstFound)
  simp [isPart] at isAside

theorem mainChildren_of_not_holdsAside (noAside : ¬ cursor.HoldsAside) :
    cursor.mainChildren = cursor.contentChildren := by
  rw [mainChildren_eq, List.filter_eq_self]
  intro child member
  by_contra isAside
  exact noAside ⟨child, member, by simpa using isAside⟩

end Contents

/-! ## Chains through parentheses -/

/-- Two ways to go on from an expression that differ in parentheses only: the one goes to
the first content, the other to the first part. -/
structure ReadAlike (read? main? : Cursor → Option Cursor) : Prop where
  parentheses : ∀ cursor, cursor.kind = .parenthesizedExpression →
    read? cursor = cursor.contentChildren.head? ∧ main? cursor = cursor.mainChildren.head?
  elsewhere : ∀ cursor, cursor.kind ≠ .parenthesizedExpression → read? cursor = main? cursor
  fromPart : ∀ cursor next, read? cursor = some next → cursor.kind.isAside = false

namespace ReadAlike

variable {read? main? : Cursor → Option Cursor} {cursor next last : Cursor}

theorem main?_of_read? (alike : ReadAlike read? main?) (step : read? cursor = some next)
    (isPart : next.kind.isAside = false) : main? cursor = some next := by
  by_cases isParenthesized : cursor.kind = .parenthesizedExpression
  · obtain ⟨readEq, mainEq⟩ := alike.parentheses cursor isParenthesized
    rw [mainEq]
    exact head?_mainChildren_of_head? (readEq.symm.trans step) isPart
  · rw [← alike.elsewhere cursor isParenthesized, step]

theorem read?_eq_main? (alike : ReadAlike read? main?)
    (clear : cursor.kind = .parenthesizedExpression → ¬ cursor.StartsWithAside) :
    read? cursor = main? cursor := by
  by_cases isParenthesized : cursor.kind = .parenthesizedExpression
  · obtain ⟨readEq, mainEq⟩ := alike.parentheses cursor isParenthesized
    rw [readEq, mainEq, head?_mainChildren (clear isParenthesized)]
  · exact alike.elsewhere cursor isParenthesized

/-- What is read on the way to a part is a part. -/
theorem reaches_main (alike : ReadAlike read? main?) (leads : Reaches read? cursor last)
    (isPart : last.kind.isAside = false) : Reaches main? cursor last := by
  induction leads with
  | refl => exact .refl
  | tail _ step ih =>
      exact (ih (alike.fromPart _ _ step)).tail (alike.main?_of_read? step isPart)

theorem reaches_read (alike : ReadAlike read? main?) (leads : Reaches main? cursor last)
    (clear : ¬ IsObscured main? cursor) : Reaches read? cursor last := by
  induction leads with
  | refl => exact .refl
  | @tail middle last leads step ih =>
      refine ih.tail ?_
      rw [alike.read?_eq_main? fun isParenthesized starts =>
        clear ⟨middle, leads, isParenthesized, starts⟩]
      exact step

/-- What is read on the way to a part is not obscured. -/
theorem not_isObscured (alike : ReadAlike read? main?) (leads : Reaches read? cursor last)
    (isPart : last.kind.isAside = false) (isEnd : main? last = none)
    (isBare : last.kind ≠ .parenthesizedExpression) : ¬ IsObscured main? cursor := by
  -- Induction from the end of the chain: each step that is read goes to a part.
  induction leads using Relation.ReflTransGen.head_induction_on with
  | refl =>
      rintro ⟨parentheses, beyond, isParenthesized, -⟩
      rcases beyond.cases_head with rfl | ⟨following, step, -⟩
      · exact isBare isParenthesized
      · rw [isEnd] at step
        contradiction
  | @head cursor next step leads ih =>
      have nextPart : next.kind.isAside = false := by
        rcases leads.cases_head with rfl | ⟨following, nextStep, -⟩
        · exact isPart
        · exact alike.fromPart _ _ nextStep
      rintro ⟨parentheses, beyond, isParenthesized, starts⟩
      rcases beyond.cases_head with rfl | ⟨following, mainStep, further⟩
      · have isFirst := (alike.parentheses cursor isParenthesized).1.symm.trans step
        exact not_startsWithAside isFirst nextPart starts
      · obtain rfl : next = following :=
          Option.some.inj ((alike.main?_of_read? step nextPart).symm.trans mainStep)
        exact ih ⟨parentheses, further, isParenthesized, starts⟩

/-- The two ways lead to the same end, unless an aside obscures it. -/
theorem reaches_iff (alike : ReadAlike read? main?) (isPart : last.kind.isAside = false)
    (isEnd : main? last = none) (isBare : last.kind ≠ .parenthesizedExpression) :
    Reaches read? cursor last ↔ Reaches main? cursor last ∧ ¬ IsObscured main? cursor :=
  ⟨fun leads => ⟨alike.reaches_main leads isPart, alike.not_isObscured leads isPart isEnd isBare⟩,
    fun ⟨leads, clear⟩ => alike.reaches_read leads clear⟩

end ReadAlike

theorem readAlike_inParentheses? :
    ReadAlike (inParentheses? contentChildren) (inParentheses? mainChildren) where
  parentheses cursor isParenthesized := by simp [inParentheses?, isParenthesized]
  elsewhere cursor isOther := by simp [inParentheses?, isOther]
  fromPart cursor next step := by
    by_cases isParenthesized : cursor.kind = .parenthesizedExpression
    · rw [isParenthesized]
      rfl
    · simp [inParentheses?, isParenthesized] at step

theorem readAlike_accessed? : ReadAlike (accessed? contentChildren) (accessed? mainChildren) where
  parentheses cursor isParenthesized := by simp [accessed?, inParentheses?, isParenthesized]
  elsewhere cursor isOther := by simp [accessed?, inParentheses?, isOther]
  fromPart cursor next step := by
    by_cases isMember : cursor.kind = .memberExpression
    · rw [isMember]
      rfl
    · rw [accessed?, if_neg isMember] at step
      exact readAlike_inParentheses?.fromPart cursor next step

section Ends

variable {cursor last other : Cursor}

/-- The content of parentheses as it is read, and as it is. -/
theorem reaches_parenthesizedContent?_iff (isPart : last.kind.isAside = false)
    (isBare : last.kind ≠ .parenthesizedExpression) :
    Reaches parenthesizedContent? cursor last ↔
      Reaches (inParentheses? mainChildren) cursor last ∧
        ¬ IsObscured (inParentheses? mainChildren) cursor :=
  readAlike_inParentheses?.reaches_iff isPart (by simp [inParentheses?, isBare]) isBare

/-- The name that member accesses start from as it is read, and as it is. -/
theorem reaches_object?_iff (isName : last.kind = .identifier) :
    Reaches object? cursor last ↔
      Reaches (accessed? mainChildren) cursor last ∧
        ¬ IsObscured (accessed? mainChildren) cursor :=
  readAlike_accessed?.reaches_iff (by rw [isName]; rfl)
    (by simp [accessed?, inParentheses?, isName]) (by simp [isName])

theorem inParentheses?_eq_some_iff {parts : Cursor → List Cursor} :
    cursor.inParentheses? parts = some last ↔
      cursor.kind = .parenthesizedExpression ∧ (parts cursor).head? = some last := by
  rw [inParentheses?]
  split <;> simp [*]

theorem mem_children_of_inParentheses? (found : cursor.inParentheses? mainChildren = some last) :
    last ∈ cursor.children :=
  (mem_mainChildren_iff.mp (List.mem_of_mem_head? (inParentheses?_eq_some_iff.mp found).2)).1

theorem mem_children_of_accessed? (found : cursor.accessed? mainChildren = some last) :
    last ∈ cursor.children := by
  unfold accessed? at found
  split at found
  · exact mem_children_of_field? found
  · exact mem_children_of_inParentheses? found

/-- Member accesses start from one name. -/
theorem eq_of_reaches_accessed? {parts : Cursor → List Cursor}
    (leads : Reaches (accessed? parts) cursor last)
    (leadsToo : Reaches (accessed? parts) cursor other) (isName : last.kind = .identifier)
    (isNameToo : other.kind = .identifier) : last = other :=
  Part.mem_unique (mem_eval.mpr ⟨leads, by simp [accessed?, inParentheses?, isName]⟩)
    (mem_eval.mpr ⟨leadsToo, by simp [accessed?, inParentheses?, isNameToo]⟩)

/-- A chain through parentheses ends in one expression. -/
theorem eq_of_reaches_inParentheses? {parts : Cursor → List Cursor}
    (leads : Reaches (inParentheses? parts) cursor last)
    (leadsToo : Reaches (inParentheses? parts) cursor other)
    (isBare : last.kind ≠ .parenthesizedExpression)
    (isBareToo : other.kind ≠ .parenthesizedExpression) : last = other :=
  Part.mem_unique (mem_eval.mpr ⟨leads, by simp [inParentheses?, isBare]⟩)
    (mem_eval.mpr ⟨leadsToo, by simp [inParentheses?, isBareToo]⟩)

theorem withoutParentheses_eq_iff (isBare : last.kind ≠ .parenthesizedExpression) :
    cursor.withoutParentheses = last ↔ Reaches parenthesizedContent? cursor last := by
  constructor
  · rintro rfl
    exact (mem_eval.mp cursor.withoutParentheses_mem_eval).1
  · intro leads
    exact Part.mem_unique cursor.withoutParentheses_mem_eval
      (mem_eval.mpr ⟨leads, by simp [parenthesizedContent?, isBare]⟩)

end Ends

/-! ## Nodes in parentheses -/

/-- A node in parentheses around an expression is one of the parentheses, beside the
expression, or part of it. -/
theorem LiesIn.below_parentheses {tree : Node} {node outer inner : Cursor}
    (grammar : tree.FollowsGrammar) (lies : LiesIn tree node) (outerLies : LiesIn tree outer)
    (leads : Reaches (inParentheses? mainChildren) outer inner)
    (above : outer ∈ node.selfAndAncestors) :
    node ∈ inner.ancestors ∨ InAside outer node ∨ inner ∈ node.selfAndAncestors := by
  -- Induction on the number of parentheses, from the outside in.
  induction leads using Relation.ReflTransGen.head_induction_on with
  | refl => exact Or.inr (Or.inr above)
  | @head outer content step leads ih =>
      obtain ⟨isParenthesized, isFirst⟩ := inParentheses?_eq_some_iff.mp step
      have contentIn := List.mem_of_mem_head? isFirst
      have contentMem := (mem_mainChildren_iff.mp contentIn).1
      have contentAbove := mem_selfAndAncestors_of_reaches
        (fun _ _ => mem_children_of_inParentheses?) leads
      rcases lies.eq_or_below_child above with rfl | ⟨child, childMem, below⟩
      · left
        exact mem_ancestors_of_mem_ancestors contentAbove (mem_ancestors_of_mem_children contentMem)
      · cases isAside : child.kind.isAside with
        | true => exact Or.inr (Or.inl (.of_child isAside childMem below))
        | false =>
            -- There is only one child that is no aside.
            have oneMain := grammar.parentheses outer (mem_cursors_iff.mpr outerLies)
              isParenthesized
            have childIn := mem_mainChildren_iff.mpr ⟨childMem, isAside⟩
            obtain ⟨only, onlyEq⟩ := List.length_eq_one_iff.mp
              (Nat.le_antisymm oneMain (List.length_pos_of_mem childIn))
            rw [onlyEq, List.mem_singleton] at childIn contentIn
            obtain rfl : child = content := childIn.trans contentIn.symm
            rcases ih (outerLies.of_mem_children contentMem) below with around | beside | inside
            · exact Or.inl around
            · refine Or.inr (Or.inl (beside.of_mem_selfAndAncestors ?_))
              exact List.mem_cons_of_mem child (mem_ancestors_of_mem_children contentMem)
            · exact Or.inr (Or.inr inside)

end Cursor

end AssertLint
