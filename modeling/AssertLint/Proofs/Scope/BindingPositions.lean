import AssertLint.Proofs.Scope.Owner
import AssertLint.Proofs.Value.Asides

/-!
# The names that a pattern declares

A name in a pattern is declared by it if everything around the name, up to the
pattern, is a pattern too, and if the way to the name goes through no default value
and no key.  What the search for bound names finds is declared, each name once and in
the order of the source.  It finds all of them, except behind a comment in the old
style of web pages that stands in front of the content of a rest.
-/

namespace AssertLint

/-- The kinds of patterns that have parts. -/
def patternKinds : List Kind :=
  [.objectPattern, .arrayPattern, .assignmentPattern, .objectAssignmentPattern, .pairPattern,
    .restPattern]

namespace Cursor

/-- The node gives a default value. -/
def IsDefaultValue (place : Cursor) : Prop :=
  ∃ parent : Cursor, place ∈ parent.children ∧
    (parent.kind = .assignmentPattern ∨ parent.kind = .objectAssignmentPattern) ∧
    place.node.field = some .right

/-- The node is the key of a pair in a pattern. -/
def IsKey (place : Cursor) : Prop :=
  ∃ parent : Cursor, place ∈ parent.children ∧ parent.kind = .pairPattern ∧
    place.node.field = some .key

/-- A pattern declares a name: around the name there are patterns only, and neither the
name nor one of these patterns is a default value or a key. -/
structure Declares (pattern name : Cursor) : Prop where
  isName : name.kind = .identifier ∨ name.kind = .shorthandPropertyIdentifierPattern
  above : pattern ∈ name.selfAndAncestors
  around : ∀ place ∈ name.ancestors, pattern ∈ place.selfAndAncestors →
    place.kind ∈ patternKinds
  takesValue : ∀ place ∈ name.selfAndAncestors, pattern ∈ place.ancestors →
    ¬ place.IsDefaultValue ∧ ¬ place.IsKey

/-- On the way from the pattern to the name there is a rest whose content comes behind
a comment in the style of web pages. -/
def IsHidden (pattern name : Cursor) : Prop :=
  ∃ place ∈ name.ancestors, pattern ∈ place.selfAndAncestors ∧ place.kind = .restPattern ∧
    ∃ first, place.firstContent? = some first ∧ first.kind = .htmlComment

end Cursor

/-- A pattern has the parts that the grammar of scripts gives it. -/
structure Cursor.HasPatternParts (pattern : Cursor) : Prop where
  withDefault : pattern.kind = .assignmentPattern ∨ pattern.kind = .objectAssignmentPattern →
    pattern.HasOnly [.left, .right]
  pair : pattern.kind = .pairPattern → pattern.HasOnly [.value, .key]
  rest : pattern.kind = .restPattern →
    (pattern.contentChildren.filter (·.kind ≠ .htmlComment)).length ≤ 1

/-- What the grammar of scripts says about the parts of patterns. -/
structure Node.PatternsFollowGrammar (tree : Node) : Prop where
  withDefault : ∀ node ∈ tree.cursors,
    node.kind = .assignmentPattern ∨ node.kind = .objectAssignmentPattern →
      node.HasOnly [.left, .right]
  pair : ∀ node ∈ tree.cursors, node.kind = .pairPattern → node.HasOnly [.value, .key]
  rest : ∀ node ∈ tree.cursors, node.kind = .restPattern →
    (node.contentChildren.filter (·.kind ≠ .htmlComment)).length ≤ 1

instance (tree : Node) : Decidable tree.PatternsFollowGrammar :=
  decidable_of_iff
    ((∀ node ∈ tree.cursors,
        node.kind = .assignmentPattern ∨ node.kind = .objectAssignmentPattern →
          node.HasOnly [.left, .right]) ∧
      (∀ node ∈ tree.cursors, node.kind = .pairPattern → node.HasOnly [.value, .key]) ∧
      ∀ node ∈ tree.cursors, node.kind = .restPattern →
        (node.contentChildren.filter (·.kind ≠ .htmlComment)).length ≤ 1)
    ⟨fun ⟨withDefault, pair, rest⟩ => ⟨withDefault, pair, rest⟩,
      fun grammar => ⟨grammar.withDefault, grammar.pair, grammar.rest⟩⟩

theorem Node.PatternsFollowGrammar.hasPatternParts {tree : Node} {pattern : Cursor}
    (grammar : tree.PatternsFollowGrammar) (inTree : pattern ∈ tree.cursors) :
    pattern.HasPatternParts :=
  ⟨grammar.withDefault pattern inTree, grammar.pair pattern inTree, grammar.rest pattern inTree⟩

namespace Cursor

/-! ## The way from a pattern to a name -/

section Way

variable {tree : Node} {pattern child place name : Cursor}

theorem parent_eq_of_mem_children {parent parent' : Cursor} (isChild : child ∈ parent.children)
    (isChild' : child ∈ parent'.children) : parent = parent' := by
  have above := ancestors_of_mem_children isChild
  rw [ancestors_of_mem_children isChild'] at above
  exact (List.cons.inj above).1.symm

/-- The way from a node down to a name goes through one child only. -/
theorem child_mem_of_between (lies : LiesIn tree name) (isChild : child ∈ pattern.children)
    (childAbove : child ∈ name.selfAndAncestors) (placeAbove : place ∈ name.selfAndAncestors)
    (below : pattern ∈ place.ancestors) : child ∈ place.selfAndAncestors := by
  have placeIn : LiesIn tree place := by
    rcases List.mem_cons.mp placeAbove with rfl | higher
    · exact lies
    · exact lies.of_mem_ancestors higher
  obtain ⟨other, isChild', below'⟩ := exists_child_of_mem_ancestors placeIn below
  have otherAbove := mem_selfAndAncestors_trans placeAbove below'
  rw [child_eq_of_mem_selfAndAncestors isChild isChild' childAbove otherAbove rfl]
  exact below'

theorem Binds.liesIn (binds : pattern.Binds name) (lies : LiesIn tree pattern) :
    LiesIn tree name := by
  revert lies
  refine binds.upward (motive := fun pattern name => LiesIn tree pattern → LiesIn tree name)
    (fun _ lies => lies) ?_
  intro pattern child name _ isChild childCase lies
  exact childCase (lies.of_mem_children isChild)

theorem not_isDefaultValue (isChild : child ∈ pattern.children)
    (notRight : pattern.kind = .assignmentPattern ∨ pattern.kind = .objectAssignmentPattern →
      child.node.field ≠ some .right) : ¬ child.IsDefaultValue := by
  rintro ⟨parent, isChild', hasDefault, isRight⟩
  rw [← parent_eq_of_mem_children isChild isChild'] at hasDefault
  exact notRight hasDefault isRight

theorem not_isKey (isChild : child ∈ pattern.children)
    (notKey : pattern.kind = .pairPattern → child.node.field ≠ some .key) : ¬ child.IsKey := by
  rintro ⟨parent, isChild', isPair, isKey⟩
  rw [← parent_eq_of_mem_children isChild isChild'] at isPair
  exact notKey isPair isKey

/-- A pattern that is not the name itself hands the name to a child that is neither a
default value nor a key; in a rest this is the first content. -/
theorem Binds.eq_or_exists_child (binds : pattern.Binds name) :
    pattern = name ∨ ∃ child ∈ pattern.children, pattern.kind ∈ patternKinds ∧
      child.Binds name ∧ ¬ child.IsDefaultValue ∧ ¬ child.IsKey ∧
      (pattern.kind = .restPattern → pattern.firstContent? = some child) := by
  cases binds with
  | name isName => exact Or.inl rfl
  | @element _ child _ isList isElement binds =>
      have isChild := mem_children_of_mem_contentChildren isElement
      refine Or.inr ⟨child, isChild, ?_, binds, not_isDefaultValue isChild ?_,
        not_isKey isChild ?_, ?_⟩
      all_goals rcases isList with isList | isList <;> simp [isList, patternKinds]
  | @target _ child _ hasDefault isTarget binds =>
      have isChild := mem_children_of_field? isTarget
      have isLeft := field_eq_of_field? isTarget
      refine Or.inr ⟨child, isChild, ?_, binds, not_isDefaultValue isChild (by simp [isLeft]),
        not_isKey isChild (by simp [isLeft]), ?_⟩
      all_goals rcases hasDefault with isKind | isKind <;> simp [isKind, patternKinds]
  | @value _ child _ isPair isValue binds =>
      have isChild := mem_children_of_field? isValue
      have inValue := field_eq_of_field? isValue
      refine Or.inr ⟨child, isChild, by simp [isPair, patternKinds], binds,
        not_isDefaultValue isChild (by simp [inValue]), not_isKey isChild (by simp [inValue]), ?_⟩
      simp [isPair]
  | @rest _ child _ isRest isContent binds =>
      have isChild := mem_children_of_firstContent? isContent
      exact Or.inr ⟨child, isChild, by simp [isRest, patternKinds], binds,
        not_isDefaultValue isChild (by simp [isRest]), not_isKey isChild (by simp [isRest]),
        fun _ => isContent⟩

theorem Binds.kind_ne_htmlComment (binds : pattern.Binds name) : pattern.kind ≠ .htmlComment := by
  intro isComment
  rcases binds.eq_or_exists_child with rfl | ⟨_, _, isKind, _⟩
  · rcases binds.isName with isName | isName <;> simp [isComment] at isName
  · simp [isComment, patternKinds] at isKind

theorem declares_self (isName : name.kind = .identifier ∨
    name.kind = .shorthandPropertyIdentifierPattern) : name.Declares name where
  isName := isName
  above := List.mem_cons_self
  around := by
    intro place placeAbove below
    exact absurd rfl (address_ne_of_mem_ancestors (mem_ancestors_of_mem_ancestors below placeAbove))
  takesValue := by
    intro place placeAbove below
    exact absurd rfl (address_ne_of_mem_ancestors (mem_ancestors_of_mem_ancestors placeAbove below))

/-- A pattern declares what a child declares that takes a value. -/
theorem Declares.of_child (declares : child.Declares name) (lies : LiesIn tree name)
    (isChild : child ∈ pattern.children) (isPattern : pattern.kind ∈ patternKinds)
    (takesValue : ¬ child.IsDefaultValue ∧ ¬ child.IsKey) : pattern.Declares name where
  isName := declares.isName
  above := mem_selfAndAncestors_of_child isChild declares.above
  around := by
    intro place placeAbove below
    rcases List.mem_cons.mp below with rfl | higher
    · exact isPattern
    · exact declares.around place placeAbove (child_mem_of_between lies isChild declares.above
        (List.mem_cons_of_mem name placeAbove) higher)
  takesValue := by
    intro place placeAbove below
    have between := child_mem_of_between lies isChild declares.above placeAbove below
    rcases List.mem_cons.mp between with rfl | higher
    · exact takesValue
    · exact declares.takesValue place placeAbove higher

theorem Declares.eq_or_exists_child (declares : pattern.Declares name) (lies : LiesIn tree name) :
    name = pattern ∨ ∃ child ∈ pattern.children, pattern.kind ∈ patternKinds ∧
      child.Declares name ∧ ¬ child.IsDefaultValue ∧ ¬ child.IsKey := by
  rcases lies.eq_or_below_child declares.above with same | ⟨child, isChild, below⟩
  · exact Or.inl same
  · have isAbove := mem_ancestors_of_mem_children isChild
    refine Or.inr ⟨child, isChild, ?_, ⟨declares.isName, below, ?_, ?_⟩,
      declares.takesValue child below isAbove⟩
    · exact declares.around pattern (mem_ancestors_of_mem_ancestors below isAbove)
        List.mem_cons_self
    · intro place placeAbove between
      exact declares.around place placeAbove (mem_selfAndAncestors_of_child isChild between)
    · intro place placeAbove between
      exact declares.takesValue place placeAbove
        (mem_ancestors_of_mem_ancestors (List.mem_cons_of_mem place between) isAbove)

theorem IsHidden.of_child (hidden : child.IsHidden name) (isChild : child ∈ pattern.children) :
    pattern.IsHidden name := by
  obtain ⟨place, placeAbove, between, behindComment⟩ := hidden
  exact ⟨place, placeAbove, mem_selfAndAncestors_of_child isChild between, behindComment⟩

/-- What a pattern binds is declared by it, and not hidden. -/
theorem Binds.declares (binds : pattern.Binds name) (lies : LiesIn tree name) :
    pattern.Declares name := by
  induction pattern using child_induction with
  | fromChildren pattern ih =>
      rcases binds.eq_or_exists_child with
        rfl | ⟨child, isChild, isKind, childBinds, notValue, notKey, -⟩
      · exact declares_self binds.isName
      · exact (ih child isChild childBinds).of_child lies isChild isKind ⟨notValue, notKey⟩

theorem Binds.not_isHidden (binds : pattern.Binds name) (lies : LiesIn tree name) :
    ¬ pattern.IsHidden name := by
  induction pattern using child_induction with
  | fromChildren pattern ih =>
      rintro ⟨place, placeAbove, between, isRest, first, isFirst, isComment⟩
      rcases binds.eq_or_exists_child with rfl | ⟨child, isChild, -, childBinds, -, -, ofRest⟩
      · exact address_ne_of_mem_ancestors (mem_ancestors_of_mem_ancestors between placeAbove) rfl
      · rcases List.mem_cons.mp between with rfl | higher
        · obtain rfl : child = first := Option.some.inj ((ofRest isRest).symm.trans isFirst)
          exact childBinds.kind_ne_htmlComment isComment
        · have inChild := child_mem_of_between lies isChild childBinds.mem_selfAndAncestors
            (List.mem_cons_of_mem name placeAbove) higher
          exact ih child isChild childBinds
            ⟨place, placeAbove, inChild, isRest, first, isFirst, isComment⟩

end Way

/-! ## Every declared name is found -/

section Found

variable {tree : Node} {pattern child name : Cursor}

theorem Binds.isAside_eq_false (binds : pattern.Binds name) : pattern.kind.isAside = false := by
  rcases binds.eq_or_exists_child with rfl | ⟨_, _, isKind, _⟩
  · rcases binds.isName with isName | isName <;> rw [isName] <;> rfl
  · cases kindEq : pattern.kind <;> simp [kindEq, patternKinds] at isKind <;> rfl

theorem Binds.mem_contentChildren (binds : child.Binds name) (isChild : child ∈ pattern.children) :
    child ∈ pattern.contentChildren := by
  rcases isAside_or_mem_contentChildren isChild with isAside | isContent
  · rw [binds.isAside_eq_false] at isAside
    contradiction
  · exact isContent

/-- In a node with two fields, a child that binds names and is not in the second stands
in the first. -/
theorem Binds.field?_eq {first second : Field} (binds : child.Binds name)
    (hasOnly : pattern.HasOnly [first, second]) (isChild : child ∈ pattern.children)
    (notSecond : child.node.field ≠ some second) : pattern.field? first = some child := by
  rcases hasOnly.aside_or_field? isChild with isAside | ⟨field, fieldMem, found⟩
  · rw [binds.isAside_eq_false] at isAside
    contradiction
  · rcases List.mem_pair.mp fieldMem with rfl | rfl
    · exact found
    · exact absurd (field_eq_of_field? found) notSecond

/-- The only content of a rest is its first one, unless a comment comes first. -/
theorem Binds.firstContent?_eq (binds : child.Binds name) (isChild : child ∈ pattern.children)
    (one : (pattern.contentChildren.filter (·.kind ≠ .htmlComment)).length ≤ 1)
    (noComment : ∀ first, pattern.firstContent? = some first → first.kind ≠ .htmlComment) :
    pattern.firstContent? = some child := by
  have isContent := binds.mem_contentChildren isChild
  obtain ⟨first, isFirst⟩ : ∃ first, pattern.firstContent? = some first :=
    Option.isSome_iff_exists.mp (List.isSome_head?.mpr (List.ne_nil_of_mem isContent))
  have firstIn : first ∈ pattern.contentChildren.filter (·.kind ≠ .htmlComment) :=
    List.mem_filter.mpr ⟨List.mem_of_mem_head? isFirst, by simp [noComment first isFirst]⟩
  have childIn : child ∈ pattern.contentChildren.filter (·.kind ≠ .htmlComment) :=
    List.mem_filter.mpr ⟨isContent, by simp [binds.kind_ne_htmlComment]⟩
  obtain ⟨only, onlyEq⟩ := List.length_eq_one_iff.mp
    (Nat.le_antisymm one (List.length_pos_of_mem childIn))
  rw [onlyEq, List.mem_singleton] at firstIn childIn
  rw [isFirst, firstIn, childIn]

/-- A pattern binds what a child binds that takes a value, unless a comment hides it. -/
theorem Binds.of_child (parts : pattern.HasPatternParts) (isChild : child ∈ pattern.children)
    (isPattern : pattern.kind ∈ patternKinds) (binds : child.Binds name)
    (notValue : ¬ child.IsDefaultValue) (notKey : ¬ child.IsKey)
    (noComment : pattern.kind = .restPattern →
      ∀ first, pattern.firstContent? = some first → first.kind ≠ .htmlComment) :
    pattern.Binds name := by
  have ofDefault (hasDefault : pattern.kind = .assignmentPattern ∨
      pattern.kind = .objectAssignmentPattern) : pattern.Binds name := by
    refine .target hasDefault (binds.field?_eq (parts.withDefault hasDefault) isChild ?_) binds
    exact fun isRight => notValue ⟨pattern, isChild, hasDefault, isRight⟩
  simp only [patternKinds, List.mem_cons, List.not_mem_nil, or_false] at isPattern
  rcases isPattern with isKind | isKind | isKind | isKind | isKind | isKind
  · exact .element (Or.inl isKind) (binds.mem_contentChildren isChild) binds
  · exact .element (Or.inr isKind) (binds.mem_contentChildren isChild) binds
  · exact ofDefault (Or.inl isKind)
  · exact ofDefault (Or.inr isKind)
  · refine .value isKind (binds.field?_eq (parts.pair isKind) isChild ?_) binds
    exact fun isKey => notKey ⟨pattern, isChild, isKind, isKey⟩
  · exact .rest isKind (binds.firstContent?_eq isChild (parts.rest isKind) (noComment isKind)) binds

/-- A declared name that no comment hides is bound. -/
theorem Declares.binds (declares : pattern.Declares name) (lies : LiesIn tree name)
    (parts : ∀ place ∈ name.ancestors, pattern ∈ place.selfAndAncestors → place.HasPatternParts)
    (notHidden : ¬ pattern.IsHidden name) : pattern.Binds name := by
  induction pattern using child_induction with
  | fromChildren pattern ih =>
      rcases declares.eq_or_exists_child lies with
        rfl | ⟨child, isChild, isPattern, childDeclares, notValue, notKey⟩
      · exact .name declares.isName
      · have childParts : ∀ place ∈ name.ancestors, child ∈ place.selfAndAncestors →
            place.HasPatternParts := fun place placeAbove below =>
          parts place placeAbove (mem_selfAndAncestors_of_child isChild below)
        have childBinds := ih child isChild childDeclares childParts
          fun hidden => notHidden (hidden.of_child isChild)
        have isAbove := mem_ancestors_of_mem_ancestors childDeclares.above
          (mem_ancestors_of_mem_children isChild)
        refine childBinds.of_child (parts pattern isAbove List.mem_cons_self) isChild isPattern
          notValue notKey ?_
        intro isRest first isFirst isComment
        exact notHidden ⟨pattern, isAbove, List.mem_cons_self, isRest, first, isFirst, isComment⟩

end Found

/-! ## The order of the names -/

section Order

variable {source : Source} {tree : Node} {pattern : Cursor}

theorem LiesIn.pairwise_boundNames (lies : LiesIn tree pattern) (placed : tree.WellPlaced source) :
    pattern.boundNames.Pairwise fun first second => first.span.stop ≤ second.span.start := by
  induction pattern using child_induction with
  | fromChildren pattern ih =>
      rw [boundNames_eq]
      split
      next => exact List.pairwise_singleton _ _
      next =>
        split
        next part _ =>
          have isChild : ∀ child ∈ part.among pattern, child ∈ pattern.children :=
            (among_sublist_children part pattern).subset
          refine List.pairwise_flatMap.mpr
            ⟨fun child member => ih child (isChild child member)
              (lies.of_mem_children (isChild child member)), ?_⟩
          have inOrder := (pairwise_children (lies.wellPlaced placed)).sublist
            (among_sublist_children part pattern)
          refine inOrder.imp_of_mem ?_
          -- Each name lies inside the child that it comes from.
          have within {child name : Cursor} (member : child ∈ part.among pattern)
              (bound : name ∈ child.boundNames) : name.span.Within child.span := by
            have binds := mem_boundNames_iff.mp bound
            exact (binds.liesIn (lies.of_mem_children (isChild child member)))
              |>.within_of_mem_selfAndAncestors placed binds.mem_selfAndAncestors
          intro first second firstMem secondMem ordered name nameIn name' nameIn'
          calc name.span.stop
            _ ≤ first.span.stop := (within firstMem nameIn).2
            _ ≤ second.span.start := ordered
            _ ≤ name'.span.start := (within secondMem nameIn').1
        next => exact List.Pairwise.nil

theorem LiesIn.pairwise_start_boundNames (lies : LiesIn tree pattern)
    (placed : tree.WellPlaced source)
    (written : ∀ name ∈ pattern.boundNames, source.text name.span ≠ "") :
    (pattern.boundNames.map (·.span.start)).Pairwise (· < ·) := by
  rw [List.pairwise_map]
  refine (lies.pairwise_boundNames placed).imp_of_mem ?_
  intro first second firstMem _ ordered
  have firstLies := (mem_boundNames_iff.mp firstMem).liesIn lies
  have wide := Source.start_lt_stop_of_text_ne (firstLies.isValid placed) (written first firstMem)
  omega

end Order

/-- The names that are found in a pattern are declared by it, not by a part of it that is
computed.  They come once each and in the order of the source.  In the tree of a script
a declared name is missing only if a comment hides it. -/
theorem bound_names_declared_unless_hidden {tree : Node} {pattern : Cursor}
    (inTree : pattern ∈ tree.cursors) :
    (∀ name ∈ pattern.boundNames, name ∈ tree.cursors ∧ pattern.Declares name ∧
      ∀ place ∈ name.ancestors, pattern ∈ place.selfAndAncestors →
        place.kind ≠ .computedPropertyName ∧ place.kind ≠ .memberExpression) ∧
    (pattern.boundNames.map address).Nodup ∧
    (∀ source : Source, tree.WellPlaced source →
      (∀ name ∈ pattern.boundNames, source.text name.span ≠ "") →
        (pattern.boundNames.map (·.span.start)).Pairwise (· < ·)) ∧
    (tree.PatternsFollowGrammar → ∀ name ∈ tree.cursors,
      (name ∈ pattern.boundNames ↔ pattern.Declares name ∧ ¬ pattern.IsHidden name)) := by
  have lies := mem_cursors_iff.mp inTree
  refine ⟨?_, nodup_address_boundNames pattern,
    fun source placed written => lies.pairwise_start_boundNames placed written, ?_⟩
  · intro name bound
    have binds := mem_boundNames_iff.mp bound
    have nameLies := binds.liesIn lies
    refine ⟨mem_cursors_iff.mpr nameLies, binds.declares nameLies, ?_⟩
    intro place placeAbove below
    have isPattern := (binds.declares nameLies).around place placeAbove below
    constructor <;> intro isKind <;> simp [isKind, patternKinds] at isPattern
  · intro grammar name nameIn
    have nameLies := mem_cursors_iff.mp nameIn
    rw [mem_boundNames_iff]
    constructor
    · intro binds
      exact ⟨binds.declares nameLies, binds.not_isHidden nameLies⟩
    · rintro ⟨declares, notHidden⟩
      refine declares.binds nameLies ?_ notHidden
      intro place placeAbove _
      exact grammar.hasPatternParts (mem_cursors_iff.mpr (nameLies.of_mem_ancestors placeAbove))

/-- The tree of a pattern with a computed key, a default value and a comment. -/
def samplePattern : Node :=
  .ofChildren .objectPattern 0 23
    [.ofChildren .pairPattern 1 10
      [Node.inField
          (.ofChildren .computedPropertyName 1 6
            [.ofChildren .memberExpression 2 5
              [Node.inField (.leaf .identifier 2 3) .object,
                Node.inField (.leaf .propertyIdentifier 4 5) .property]])
          .key,
        Node.inField
          (.ofChildren .assignmentPattern 7 10
            [Node.inField (.leaf .identifier 7 8) .left,
              Node.inField (.leaf .identifier 9 10) .right])
          .value],
      .leaf .shorthandPropertyIdentifierPattern 11 12,
      .ofChildren .restPattern 13 22 [.leaf .comment 16 21, .leaf .identifier 21 22]]

def samplePatternSource : Source := "\x7b[k.l]:a=b,c,.../*d*/e\x7d".toList

theorem sample_names_declared :
    (Cursor.root samplePattern).boundNames.map (·.span.start) = [7, 11, 21] ∧
      [7, 11, 21].Pairwise (· < ·) ∧
      ∀ name ∈ samplePattern.cursors, (name ∈ (Cursor.root samplePattern).boundNames ↔
        (Cursor.root samplePattern).Declares name ∧
          ¬ (Cursor.root samplePattern).IsHidden name) := by
  have inTree : Cursor.root samplePattern ∈ samplePattern.cursors := mem_cursors_iff.mpr .root
  obtain ⟨-, -, ordered, allFound⟩ := bound_names_declared_unless_hidden inTree
  have starts : (Cursor.root samplePattern).boundNames.map (·.span.start) = [7, 11, 21] := by rfl
  refine ⟨starts, ?_, allFound (by decide)⟩
  rw [← starts]
  exact ordered samplePatternSource (by decide) (by decide)

/-- The tree of a rest whose name comes behind a comment in the style of web pages. -/
def hiddenPattern : Node :=
  .ofChildren .arrayPattern 0 13
    [.ofChildren .restPattern 1 12 [.leaf .htmlComment 4 10, .leaf .identifier 11 12]]

theorem declared_name_missing :
    ∃ name ∈ hiddenPattern.cursors,
      (Cursor.root hiddenPattern).Declares name ∧ (Cursor.root hiddenPattern).boundNames = [] := by
  obtain ⟨rest, restFound⟩ : ∃ rest, (Cursor.root hiddenPattern).child? 0 = some rest := ⟨_, rfl⟩
  obtain ⟨name, nameFound⟩ : ∃ name, rest.child? 1 = some name := by
    cases restFound
    exact ⟨_, rfl⟩
  have restMem := mem_children_iff.mpr ⟨0, restFound⟩
  have nameMem := mem_children_iff.mpr ⟨1, nameFound⟩
  have lies : LiesIn hiddenPattern name := (LiesIn.root.child restFound).child nameFound
  cases restFound
  cases nameFound
  have restDeclares := (declares_self (Or.inl rfl)).of_child lies nameMem (by decide)
    ⟨not_isDefaultValue nameMem (by decide), not_isKey nameMem (by decide)⟩
  refine ⟨_, mem_cursors_iff.mpr lies, restDeclares.of_child lies restMem (by decide)
    ⟨not_isDefaultValue restMem (by decide), not_isKey restMem (by decide)⟩, rfl⟩

end Cursor

end AssertLint
