import AssertLint.Proofs.Scope.Sites
import AssertLint.Proofs.Value.Access
import AssertLint.Value.Origin
import Mathlib.Data.List.Perm.Subperm

/-!
# The search for an origin ends

Every step of the search goes to a node of the same tree: to a child, or from a
name to an initializer, and the names followed are different nodes of the tree.
So the search ends, within the bound that it is given, and what it finds does not
depend on where along the chain it starts.
-/

namespace AssertLint

open StateTransition

/-! ## Initializers are nodes of the tree -/

namespace ScopeBuilder

/-- All definitions made so far are of a sort. -/
def AllRecorded (builder : ScopeBuilder) (sort : Definition → Prop) : Prop :=
  ∀ definition ∈ builder.table.definitions, sort definition

namespace AllRecorded

variable {builder : ScopeBuilder} {sort : Definition → Prop}

theorem record (recorded : builder.AllRecorded sort) {binding : Binding}
    (isSort : sort binding.definition) : (builder.record binding).AllRecorded sort := by
  rw [ScopeBuilder.record]
  cases builder.scopeFor? binding.place with
  | none => exact recorded
  | some id =>
      intro definition member
      change definition ∈ (builder.table.define id binding.definition).definitions at member
      rw [ScopeTable.definitions_define, List.mem_append, List.mem_singleton] at member
      rcases member with earlier | rfl
      · exact recorded definition earlier
      · exact isSort

theorem recordAll (recorded : builder.AllRecorded sort) {bindings : List Binding}
    (areSort : ∀ binding ∈ bindings, sort binding.definition) :
    (builder.recordAll bindings).AllRecorded sort := by
  induction bindings generalizing builder with
  | nil => exact recorded
  | cons binding rest ih =>
      obtain ⟨isSort, restSort⟩ := List.forall_mem_cons.mp areSort
      exact ih (recorded.record isSort) restSort

theorem openFor (recorded : builder.AllRecorded sort) (node : Cursor) :
    (builder.openFor node).AllRecorded sort := by
  unfold ScopeBuilder.openFor
  cases node.scopeType? with
  | none => exact recorded
  | some type => exact recorded

theorem enter (recorded : builder.AllRecorded sort) {node : Cursor}
    (areSort : ∀ binding ∈ node.bindings builder.table.source, sort binding.definition) :
    (builder.enter node).AllRecorded sort := by
  obtain ⟨outerSort, innerSort⟩ := List.forall_mem_append.mp areSort
  rw [enter_eq]
  exact ((recorded.recordAll outerSort).openFor node).recordAll innerSort

end AllRecorded

/-- What holds of the bindings of all nodes of a tree holds of all definitions
recorded in it. -/
theorem allRecorded_walk {tree : Node} {sort : Definition → Prop} (source : Source)
    (areSort : ∀ node ∈ tree.cursors, ∀ text, ∀ binding ∈ node.bindings text,
      sort binding.definition) :
    (tree.walk.foldl step (start source)).AllRecorded sort := by
  have invariant : tree.WalkInvariant step
      fun (builder : ScopeBuilder) _ _ => builder.AllRecorded sort := by
    constructor
    case enter =>
      intro builder entered node inTree fresh recorded
      exact recorded.enter (areSort node inTree _)
    case leave => exact fun builder entered node inTree recorded => recorded
  exact invariant.foldl_walk fun definition member => absurd member List.not_mem_nil

end ScopeBuilder

/-- The construct that makes a definition is a node of the tree. -/
theorem Cursor.Introduces.liesIn_node {bound : Cursor → Cursor → Prop} {source : Source}
    {tree : Node} {node : Cursor} {block? : Option Cursor} {definition : Definition}
    (introduces : Introduces bound source node block? definition) (lies : LiesIn tree node) :
    LiesIn tree definition.node := by
  have content {cursor child : Cursor} (above : LiesIn tree cursor)
      (member : child ∈ cursor.contentChildren) : LiesIn tree child :=
    above.of_mem_children (mem_children_of_mem_contentChildren member)
  cases introduces with
  | varDeclarator isVar declares => exact content lies declares
  | lexicalDeclarator isLexical declares => exact content lies declares
  | soleParameter isFunction hasParameter =>
      exact lies.of_mem_children (mem_children_of_field? hasParameter)
  | listedParameter isFunction hasParameters isList listed =>
      exact content (lies.of_mem_children (mem_children_of_field? hasParameters)) listed
  | defaultImport isImport hasClause imports =>
      exact content (content lies (List.mem_of_find?_eq_some hasClause)) imports
  | namespaceImport isImport hasClause imports =>
      exact content (content lies (List.mem_of_find?_eq_some hasClause)) imports
  | namedImport isImport hasClause imports isList listed =>
      exact content (content (content lies (List.mem_of_find?_eq_some hasClause)) imports) listed
  | loopVar | loopLexical | declaredFunction | functionExpression | declaredClass
  | classExpression | caught => exact lies

namespace ScopeTable

variable {source : Source} {tree : Node}

theorem liesIn_definition {definition : Definition}
    (made : definition ∈ (ofTree source tree).definitions) :
    Cursor.LiesIn tree definition.node := by
  have recorded : (tree.walk.foldl ScopeBuilder.step (ScopeBuilder.start source)).AllRecorded
      fun definition => Cursor.LiesIn tree definition.node := by
    apply ScopeBuilder.allRecorded_walk
    intro node inTree text binding member
    have site : (binding.place.block? node, binding.definition) ∈ node.sites text :=
      List.mem_map.mpr ⟨binding, member, rfl⟩
    exact (Cursor.introduces_of_mem_sites site).liesIn_node (Cursor.mem_cursors_iff.mp inTree)
  exact recorded definition made

/-- What a name is initialized with is a node of the tree. -/
theorem liesIn_initializer? {identifier value : Cursor}
    (found : (ofTree source tree).initializer? identifier = some value) :
    Cursor.LiesIn tree value := by
  simp only [initializer?, Option.bind_eq_bind, Option.bind_eq_some_iff] at found
  obtain ⟨reference, -, id, -, entry, -, definition, lastFound, valueFound⟩ := found
  obtain ⟨number, -, definitionFound⟩ :=
    mem_definitionsOf_iff.mp (List.mem_of_getLast? lastFound)
  have lies := liesIn_definition (List.mem_of_getElem? definitionFound)
  unfold Definition.initializer? at valueFound
  split at valueFound
  · split at valueFound
    · split at valueFound
      · exact lies.of_mem_children (Cursor.mem_children_of_field? valueFound)
      · simp at valueFound
    · simp at valueFound
  · simp at valueFound

/-! ## The search -/

/-- Every expression but a name takes its value from a child. -/
theorem mem_children_of_source? {table : ScopeTable} {cursor next : Cursor}
    (notName : cursor.kind ≠ .identifier) (found : table.source? cursor = some next) :
    next ∈ cursor.children := by
  unfold source? at found
  split at found
  next isName => exact absurd isName notName
  next => exact Cursor.mem_children_of_field? found
  next => exact Cursor.mem_children_of_field? found
  next => exact Cursor.mem_children_of_field? found
  next => exact Cursor.mem_children_of_firstContent? found
  next => simp at found

/-- A place in a search in a tree: the names followed are different nodes of the
tree. -/
structure Trail.IsIn (tree : Node) (trail : Trail) : Prop where
  lies : Cursor.LiesIn tree trail.cursor
  distinct : trail.followed.Nodup
  followed : trail.followed ⊆ tree.cursors.map Cursor.address

/-- What every step of a search makes smaller. -/
def Trail.rest (tree : Node) (trail : Trail) : Nat :=
  (tree.size - trail.followed.length) * (tree.size + 1) + trail.cursor.node.size

theorem Trail.IsIn.length_le {trail : Trail} (isIn : trail.IsIn tree) :
    trail.followed.length ≤ tree.size := by
  have lengthLe := (List.subperm_of_subset isIn.distinct isIn.followed).length_le
  rw [List.length_map, Cursor.length_cursors] at lengthLe
  exact lengthLe

/-- A step of a search stays in the tree and makes the rest of the search
smaller. -/
theorem follow?_goesDown {trail following : Trail} (isIn : trail.IsIn tree)
    (step : (ofTree source tree).follow? trail = some following) :
    following.IsIn tree ∧ following.rest tree < trail.rest tree := by
  obtain ⟨cursor, names⟩ := trail
  unfold follow? at step
  split at step
  next isName =>
    split at step
    · simp at step
    next isNew =>
      obtain ⟨next, found, rfl⟩ := Option.map_eq_some_iff.mp step
      have nextLies : Cursor.LiesIn tree next := by
        simp only [source?, isName] at found
        exact liesIn_initializer? found
      have nextIn : Trail.IsIn tree ⟨next, cursor.address :: names⟩ := by
        refine ⟨nextLies, List.nodup_cons.mpr ⟨by simpa using isNew, isIn.distinct⟩, ?_⟩
        intro address member
        rcases List.mem_cons.mp member with rfl | earlier
        · exact List.mem_map_of_mem (Cursor.mem_cursors_iff.mpr isIn.lies)
        · exact isIn.followed earlier
      refine ⟨nextIn, ?_⟩
      have lengthLe := nextIn.length_le
      have sizeLe := nextLies.size_le
      simp only [Trail.rest, List.length_cons] at lengthLe ⊢
      obtain ⟨left, leftEq⟩ := Nat.exists_eq_add_of_le lengthLe
      have before : tree.size - names.length = left + 1 := by omega
      have after : tree.size - (names.length + 1) = left := by omega
      rw [before, after, Nat.succ_mul]
      omega
  next notName =>
    obtain ⟨next, found, rfl⟩ := Option.map_eq_some_iff.mp step
    have isChild := mem_children_of_source? notName found
    refine ⟨⟨isIn.lies.of_mem_children isChild, isIn.distinct, isIn.followed⟩, ?_⟩
    have smaller : next.node.size < cursor.node.size := Cursor.size_lt_of_mem_children isChild
    exact Nat.add_lt_add_left smaller _

theorem searchBound_eq {cursor : Cursor} (lies : Cursor.LiesIn tree cursor) :
    searchBound cursor = (tree.size + 1) * (tree.size + 1) := by
  have lastEq : cursor.selfAndAncestors.getLast? = some (Cursor.root tree) := by
    induction lies with
    | root => rfl
    | child above found ih =>
        rw [Cursor.selfAndAncestors,
          Cursor.ancestors_of_mem_children (Cursor.mem_children_iff.mpr ⟨_, found⟩),
          List.getLast?_cons_cons]
        exact ih
  rw [searchBound, lastEq]
  rfl

/-- The search ends at the origin. -/
theorem exists_origin_mem_eval (source : Source) {cursor : Cursor}
    (lies : Cursor.LiesIn tree cursor) :
    ∃ followed, ⟨(ofTree source tree).origin cursor, followed⟩ ∈
      eval (ofTree source tree).follow? ⟨cursor, []⟩ := by
  have isIn : Trail.IsIn tree ⟨cursor, []⟩ := ⟨lies, List.nodup_nil, List.nil_subset _⟩
  have enough : Trail.rest tree ⟨cursor, []⟩ ≤ searchBound cursor := by
    have sizeLe := lies.size_le
    rw [searchBound_eq lies, Trail.rest, Nat.succ_mul]
    simp only [List.length_nil, Nat.sub_zero]
    omega
  exact ⟨_, chainEnd_mem_eval (Trail.IsIn tree) (Trail.rest tree)
    (fun _ _ => follow?_goesDown) isIn enough⟩

/-- An expression that is no name has the origin of the expression that it takes its
value from. -/
theorem origin_eq_of_source? {cursor next : Cursor} (lies : Cursor.LiesIn tree cursor)
    (notName : cursor.kind ≠ .identifier)
    (found : (ofTree source tree).source? cursor = some next) :
    (ofTree source tree).origin cursor = (ofTree source tree).origin next := by
  have step : (ofTree source tree).follow? ⟨cursor, []⟩ = some ⟨next, []⟩ := by
    rw [follow?, if_neg notName, found]
    rfl
  obtain ⟨followed, ends⟩ := exists_origin_mem_eval source lies
  obtain ⟨followed', ends'⟩ := exists_origin_mem_eval source
    (lies.of_mem_children (mem_children_of_source? notName found))
  rw [eval_eq_of_step step] at ends
  exact (Trail.mk.inj (Part.mem_unique ends ends')).1

theorem origin_eq_self {table : ScopeTable} {cursor : Cursor}
    (isEnd : table.source? cursor = none) :
    table.origin cursor = cursor := by
  have isLast : table.follow? ⟨cursor, []⟩ = none := by simp [follow?, isEnd]
  unfold origin
  cases searchBound cursor with
  | zero => rfl
  | succ bound => rw [chainEnd, isLast]

/-- A search whose every step takes the value of an expression that is no name from
another one does not change the origin. -/
theorem origin_eq_of_reaches {below? : Cursor → Option Cursor}
    (takes : ∀ cursor next, below? cursor = some next →
      cursor.kind ≠ .identifier ∧ (ofTree source tree).source? cursor = some next)
    {cursor last : Cursor} (lies : Cursor.LiesIn tree cursor) (leads : Reaches below? cursor last) :
    (ofTree source tree).origin last = (ofTree source tree).origin cursor := by
  have goesDown : ∀ cursor next, below? cursor = some next → next ∈ cursor.children :=
    fun cursor next step => mem_children_of_source? (takes cursor next step).1
      (takes cursor next step).2
  induction leads with
  | refl => rfl
  | @tail middle last above step ih =>
      obtain ⟨notName, found⟩ := takes middle last step
      rw [← ih, origin_eq_of_source? (lies.of_reaches goesDown above) notName found]

theorem source?_of_parenthesizedContent? {table : ScopeTable} {cursor content : Cursor}
    (step : cursor.parenthesizedContent? = some content) :
    cursor.kind ≠ .identifier ∧ table.source? cursor = some content := by
  have isParenthesized : cursor.kind = .parenthesizedExpression := by
    by_contra other
    simp [Cursor.parenthesizedContent?, other] at step
  refine ⟨by simp [isParenthesized], ?_⟩
  simpa [source?, isParenthesized, Cursor.parenthesizedContent?] using step

/-- Parentheses do not change the origin. -/
theorem origin_withoutParentheses {cursor : Cursor} (lies : Cursor.LiesIn tree cursor) :
    (ofTree source tree).origin cursor.withoutParentheses = (ofTree source tree).origin cursor :=
  origin_eq_of_reaches (fun _ _ => source?_of_parenthesizedContent?) lies
    (mem_eval.mp cursor.withoutParentheses_mem_eval).1

theorem source?_of_object? {table : ScopeTable} {cursor object : Cursor}
    (step : cursor.object? = some object) :
    cursor.kind ≠ .identifier ∧ table.source? cursor = some object := by
  unfold Cursor.object? at step
  split at step
  next isMember => exact ⟨by simp [isMember], by simpa [source?, isMember] using step⟩
  next => exact source?_of_parenthesizedContent? step

/-- An expression has the origin of the object that its member accesses start from. -/
theorem origin_rootObject {cursor : Cursor} (lies : Cursor.LiesIn tree cursor) :
    (ofTree source tree).origin cursor.rootObject = (ofTree source tree).origin cursor :=
  origin_eq_of_reaches (fun _ _ => source?_of_object?) lies
    (mem_eval.mp cursor.rootObject_mem_eval).1

/-! ## Classes -/

/-- The class of an expression is that of its origin. -/
theorem classify_eq {cursor : Cursor} (lies : Cursor.LiesIn tree cursor) :
    (ofTree source tree).classify cursor =
      (ofTree source tree).classOfOrigin ((ofTree source tree).origin cursor) := by
  rw [← origin_withoutParentheses lies, classify]
  split
  next isRegex =>
    rw [origin_eq_self (by simp [source?, isRegex]), classOfOrigin, if_pos isRegex]
  next => rfl

/-- An expression that is no name is classified as the expression that it takes its
value from. -/
theorem classify_eq_of_source? {cursor next : Cursor} (lies : Cursor.LiesIn tree cursor)
    (notName : cursor.kind ≠ .identifier)
    (found : (ofTree source tree).source? cursor = some next) :
    (ofTree source tree).classify cursor = (ofTree source tree).classify next := by
  rw [classify_eq lies, classify_eq (lies.of_mem_children (mem_children_of_source? notName found)),
    origin_eq_of_source? lies notName found]

theorem classify_withoutParentheses {cursor : Cursor} (lies : Cursor.LiesIn tree cursor) :
    (ofTree source tree).classify cursor.withoutParentheses =
      (ofTree source tree).classify cursor := by
  rw [classify_eq lies, classify_eq lies.withoutParentheses, origin_withoutParentheses lies]

end ScopeTable

end AssertLint
