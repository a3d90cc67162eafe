import AssertLint.Proofs.Scope.Tree

/-!
# Scopes are opened and closed in balance

Nothing ties the closing of a scope to its opening but the node that made it: a
node that is left closes the innermost scopes that have it as their block.  This
file follows the current scope through every event of a walk.  On entering a node
it is the scope of the nearest node above that made one, and leaving the node
brings it back.  So the two assertions that are made while scopes are built, that
no scope is open around a program and none at the end, never fail.
-/

namespace AssertLint

namespace ScopeBuilder

/-- The builder after some events of a walk. -/
def after (source : Source) (events : List Event) : ScopeBuilder :=
  events.foldl step (start source)

/-- The assertions that can fail while scopes are built. -/
inductive BrokenAssertion where
  | scopeAroundProgram
  | scopeLeftOpen
  deriving DecidableEq, Repr

/-- What an event does, where no scope may be open when that of a program is
opened. -/
def assertedStep (builder : ScopeBuilder) : Event → Except BrokenAssertion ScopeBuilder
  | .enter node =>
      if node.kind = .program ∧ builder.current? ≠ none then .error .scopeAroundProgram
      else .ok (builder.enter node)
  | .leave node => .ok (builder.close node)

end ScopeBuilder

/-- The scopes of a tree, built with all assertions: no scope may be open around a
program, and none after the walk. -/
def ScopeTable.assertedOfTree (source : Source) (tree : Node) :
    Except ScopeBuilder.BrokenAssertion ScopeTable :=
  match tree.walk.foldlM ScopeBuilder.assertedStep (ScopeBuilder.start source) with
  | .ok builder =>
      if builder.current? = none then .ok builder.table else .error .scopeLeftOpen
  | .error failure => .error failure

theorem ScopeTable.eq_none_of_rel_isScopeOf {table : ScopeTable} {id? : Option ScopeId}
    (related : Option.Rel table.IsScopeOf id? none) : id? = none := by
  cases related
  rfl

theorem ScopeTable.eq_of_rel_isScopeOf {table : ScopeTable} {id? other? : Option ScopeId}
    {block? : Option Cursor} (distinct : (table.scopes.map (·.block.address)).Nodup)
    (related : Option.Rel table.IsScopeOf id? block?)
    (related' : Option.Rel table.IsScopeOf other? block?) : id? = other? := by
  cases related with
  | none =>
      cases related'
      rfl
  | some isScope =>
      cases related' with
      | some isScope' => rw [isScope.unique distinct isScope']

namespace ScopeBuilder

section Walk

variable {source : Source} {tree : Node} {before rest : List Event} {event : Event}

theorem after_concat (source : Source) (events : List Event) (event : Event) :
    after source (events ++ [event]) = (after source events).step event :=
  List.foldl_append

theorem follows_after (source : Source) (split : tree.walk = before ++ event :: rest) :
    (after source before).Follows (before.filterMap Event.entered?) event.openBefore := by
  have bareStart : (start source).bare.Follows [] [] := follows_start source
  exact follows_of_bare ((walkInvariant_follows tree).foldl_before bareStart split)

theorem entered_append_of_walk (split : tree.walk = before ++ rest) :
    before.filterMap Event.entered? ++ rest.filterMap Event.entered? = tree.cursors := by
  rw [← List.filterMap_append, ← split, tree.filterMap_entered?_walk]

theorem nodup_entered (split : tree.walk = before ++ rest) :
    ((before.filterMap Event.entered?).map Cursor.address).Nodup := by
  have distinct := Cursor.nodup_address_cursors tree
  rw [← entered_append_of_walk split, List.map_append] at distinct
  exact (List.nodup_append.mp distinct).1

theorem mem_cursors_of_enter {node : Cursor} (split : tree.walk = before ++ .enter node :: rest) :
    node ∈ tree.cursors := by
  rw [← entered_append_of_walk split]
  exact List.mem_append_right _ List.mem_cons_self

/-- Leaving a node brings back the scope that was the current one when the node was
entered. -/
theorem current?_after_leave {node : Cursor} {inside : List Event}
    (split : tree.walk = before ++ .enter node :: (inside ++ .leave node :: rest)) :
    (after source (before ++ .enter node :: (inside ++ [.leave node]))).current? =
      (after source before).current? := by
  have splitInside : tree.walk = (before ++ .enter node :: inside) ++ .leave node :: rest := by
    rw [split, List.append_assoc, List.cons_append]
  have entering := follows_after source split
  have leaving := (follows_after source splitInside).close
  have eventsEq : after source (before ++ .enter node :: (inside ++ [.leave node])) =
      (after source (before ++ .enter node :: inside)).close node := by
    rw [← List.cons_append, ← List.append_assoc, after_concat]
    rfl
  -- Inside the node further scopes may have been made, which keeps the older ones.
  have appended : ∃ blocks,
      ((after source (before ++ .enter node :: inside)).close node).table.scopes.map Scope.block =
        (after source before).table.scopes.map Scope.block ++ blocks := by
    rw [leaving.blocks, entering.blocks, List.filterMap_append, List.filter_append]
    exact ⟨_, rfl⟩
  obtain ⟨blocks, appended⟩ := appended
  rw [eventsEq]
  apply ScopeTable.eq_of_rel_isScopeOf (leaving.nodup_blocks (nodup_entered splitInside))
    leaving.current
  exact ScopeTable.rel_isScopeOf_of_append entering.current appended

/-- If only the root is a program, no scope is open when a program is entered. -/
theorem current?_before_program {node : Cursor}
    (onlyRoot : ∀ node ∈ tree.cursors, node.kind = .program → node = Cursor.root tree)
    (split : tree.walk = before ++ .enter node :: rest) (isProgram : node.kind = .program) :
    (after source before).current? = none := by
  have isRoot := onlyRoot node (mem_cursors_of_enter split) isProgram
  have current := (follows_after source split).current
  rw [isRoot] at current
  exact ScopeTable.eq_none_of_rel_isScopeOf current

theorem current?_after_walk (source : Source) (tree : Node) :
    (after source tree.walk).current? = none :=
  ScopeTable.eq_none_of_rel_isScopeOf (follows_walk source tree).current

/-- A run of asserted steps in which no assertion fails. -/
theorem foldlM_assertedStep {builder : ScopeBuilder} {events : List Event}
    (holds : ∀ before event rest, events = before ++ event :: rest →
      assertedStep (before.foldl step builder) event =
        .ok ((before.foldl step builder).step event)) :
    events.foldlM assertedStep builder = .ok (events.foldl step builder) := by
  induction events generalizing builder with
  | nil => rfl
  | cons event rest ih =>
      have first : assertedStep builder event = .ok (builder.step event) :=
        holds [] event rest rfl
      rw [List.foldlM_cons, first, List.foldl_cons]
      apply ih
      intro before later others split
      exact holds (event :: before) later others (by rw [split, List.cons_append])

end Walk

end ScopeBuilder

namespace ScopeTable

open ScopeBuilder (after)

/-- The scopes of a tree are opened and closed in balance. -/
structure IsBuiltInBalance (source : Source) (tree : Node) : Prop where
  /-- The scopes made so far are those of the nodes entered so far that make one. -/
  made : ∀ before event rest, tree.walk = before ++ event :: rest →
    (after source before).table.scopes.map Scope.block =
      (before.filterMap Event.entered?).filter Cursor.makesScope
  /-- When a node is entered, the current scope is that of the nearest node above it
  that has made one, and there is none if no node above has made one. -/
  entering : ∀ before node rest, tree.walk = before ++ .enter node :: rest →
    Option.Rel (after source before).table.IsScopeOf (after source before).current?
      (node.ancestors.find? Cursor.makesScope)
  leaving : ∀ before node inside rest,
    tree.walk = before ++ .enter node :: (inside ++ .leave node :: rest) →
      (after source (before ++ .enter node :: (inside ++ [.leave node]))).current? =
        (after source before).current?
  aroundProgram : ∀ before node rest, tree.walk = before ++ .enter node :: rest →
    node.kind = .program → (after source before).current? = none
  atEnd : (after source tree.walk).current? = none
  /-- No assertion fails. -/
  asserted : assertedOfTree source tree = .ok (ofTree source tree)

/-- If a program is found at most at the root, the scopes are built in balance. -/
theorem isBuiltInBalance_of_onlyRoot (source : Source) {tree : Node}
    (onlyRoot : ∀ node ∈ tree.cursors, node.kind = .program → node = Cursor.root tree) :
    IsBuiltInBalance source tree := by
  have aroundProgram {before rest : List Event} {node : Cursor} :=
    @ScopeBuilder.current?_before_program source tree before rest node onlyRoot
  have atEnd := ScopeBuilder.current?_after_walk source tree
  constructor
  case made => exact fun before event rest split => (ScopeBuilder.follows_after source split).blocks
  case entering =>
    exact fun before node rest split => (ScopeBuilder.follows_after source split).current
  case leaving => exact fun before node inside rest => ScopeBuilder.current?_after_leave
  case aroundProgram => exact fun before node rest => aroundProgram
  case atEnd => exact atEnd
  case asserted =>
    have built : tree.walk.foldlM ScopeBuilder.assertedStep (ScopeBuilder.start source) =
        .ok (after source tree.walk) := by
      apply ScopeBuilder.foldlM_assertedStep
      intro before event rest split
      cases event with
      | leave node => rfl
      | enter node =>
          apply if_neg
          rintro ⟨isProgram, someOpen⟩
          exact someOpen (aroundProgram split isProgram)
    rw [assertedOfTree, built]
    exact if_pos atEnd

/-- A text that breaks off in a function with a block: the root is an error. -/
def brokenOff : Node :=
  .ofChildren .errorRoot 0 20
    [.ofChildren .functionDeclaration 0 16
      [Node.inField (.leaf .identifier 9 10) .name,
        Node.inField (.leaf .formalParameters 10 12) .parameters,
        Node.inField (.ofChildren .statementBlock 12 16 [.leaf .statementBlock 13 15]) .body],
      .leaf .forStatement 16 20]

theorem isBuiltInBalance_samples :
    ((∀ node ∈ brokenOff.cursors, node.kind ≠ .program) ∧
      (ofTree [] brokenOff).scopes.map Scope.upper? = [none, some 0, none] ∧
      IsBuiltInBalance [] brokenOff) ∧
    ((∀ node ∈ sampleProgram.cursors, node.kind = .program → node.address = []) ∧
      (ofTree [] sampleProgram).scopes.map Scope.upper? = [none, some 0, some 1, some 2] ∧
      IsBuiltInBalance [] sampleProgram) := by
  have noProgram : ∀ node ∈ brokenOff.cursors, node.kind ≠ .program := by decide +kernel
  have atRoot : ∀ node ∈ sampleProgram.cursors, node.kind = .program → node.address = [] := by
    decide +kernel
  refine ⟨⟨noProgram, by decide +kernel, ?_⟩, atRoot, by decide +kernel, ?_⟩
  · apply isBuiltInBalance_of_onlyRoot
    exact fun node inTree isProgram => absurd isProgram (noProgram node inTree)
  · apply isBuiltInBalance_of_onlyRoot
    intro node inTree isProgram
    exact (Cursor.mem_cursors_iff.mp inTree).eq_of_address_eq Cursor.LiesIn.root
      (atRoot node inTree isProgram)

/-- A program inside another one would break the first assertion. -/
example : assertedOfTree [] (.ofChildren .program 0 0 [.leaf .program 0 0]) =
    .error .scopeAroundProgram := rfl

end ScopeTable

end AssertLint
