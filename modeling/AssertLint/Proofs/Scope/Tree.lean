import AssertLint.Proofs.Scope.Links

/-!
# The tree of scopes

The scopes of a program form a tree that mirrors the syntax tree: each node that
makes a scope has one, and the scope around it is that of the nearest such node
above.  Following the links from a scope outwards ends at the scope of the whole
program.
-/

namespace AssertLint

namespace ScopeTable

/-- The scope around a given one. -/
def upper? (table : ScopeTable) (id : ScopeId) : Option ScopeId :=
  table.scopes[id]?.bind Scope.upper?

/-- Whether declarations with `var` belong to a scope. -/
def holdsVar (table : ScopeTable) (id : ScopeId) : Bool :=
  table.scopes[id]?.any (·.type.holdsVar)

/-- What it is for the scopes of a table to be the scopes of a tree whose root is a
program. -/
structure IsScopeTreeOf (table : ScopeTable) (tree : Node) : Prop where
  /-- There is one scope for each node that makes one, in the order of the nodes,
  and no other. -/
  blocks : table.scopes.map Scope.block = tree.cursors.filter Cursor.makesScope
  distinct : (table.scopes.map (·.block.address)).Nodup
  types : ∀ scope ∈ table.scopes, scope.block.scopeType? = some scope.type
  /-- The first scope is that of the program. -/
  first : ∃ scope, table.scopes[0]? = some scope ∧ scope.block = Cursor.root tree ∧
    scope.type = .global ∧ scope.upper? = none
  /-- If only the root is a program, no other scope is global. -/
  onlyGlobal : (∀ node ∈ tree.cursors, node.kind = .program → node = Cursor.root tree) →
    table.global? = some 0 ∧
      ∀ id scope, table.scopes[id]? = some scope → scope.type = .global → id = 0
  /-- Around every other scope is the scope of the nearest node above that makes
  one, which has a smaller number. -/
  upper : ∀ id scope, table.scopes[id]? = some scope → id ≠ 0 →
    ∃ upperId upperScope, scope.upper? = some upperId ∧ upperId < id ∧
      table.scopes[upperId]? = some upperScope ∧
      scope.block.ancestors.find? Cursor.makesScope = some upperScope.block
  children : ∀ id scope, table.scopes[id]? = some scope →
    scope.children =
      (List.range table.scopes.length).filter fun child => table.upper? child = some id
  /-- The chain from a scope follows the links outwards up to the first scope. -/
  chain : ∀ id scope, table.scopes[id]? = some scope →
    table.chain id = id :: (scope.upper?.elim [] table.chain) ∧
      (table.chain id).getLast? = some 0
  /-- Declarations with `var` end up in the nearest function scope or global scope
  of the chain. -/
  variableScope : ∀ id scope, table.scopes[id]? = some scope →
    (table.chain id).find? table.holdsVar = some scope.variableScope

end ScopeTable

namespace Cursor

theorem scopeType?_root {tree : Node} (isProgram : tree.kind = .program) :
    (root tree).scopeType? = some .global := by
  simp [scopeType?, kind, root, isProgram]

theorem makesVarScope_root {tree : Node} (isProgram : tree.kind = .program) :
    (root tree).makesVarScope = true := by
  rw [makesVarScope, scopeType?_root isProgram]
  rfl

/-- Above every node of a program, or at it, a node makes a scope for `var`
declarations. -/
theorem exists_find?_makesVarScope {tree : Node} (isProgram : tree.kind = .program)
    {node : Cursor} (inTree : node ∈ tree.cursors) :
    ∃ block, node.selfAndAncestors.find? makesVarScope = some block := by
  rw [← Option.isSome_iff_exists, List.find?_isSome]
  refine ⟨root tree, ?_, makesVarScope_root isProgram⟩
  rcases (mem_cursors_iff.mp inTree).eq_root_or_mem_ancestors with rfl | higher
  · exact List.mem_cons_self
  · exact List.mem_cons_of_mem node higher

/-- Above every node of a program but the root a node makes a scope. -/
theorem exists_find?_makesScope_ancestors {tree : Node} (isProgram : tree.kind = .program)
    {node : Cursor} (inTree : node ∈ tree.cursors) (notRoot : node ≠ root tree) :
    ∃ block, node.ancestors.find? makesScope = some block := by
  rw [← Option.isSome_iff_exists, List.find?_isSome]
  have higher := (mem_cursors_iff.mp inTree).eq_root_or_mem_ancestors.resolve_left notRoot
  exact ⟨root tree, higher, makesScope_of_makesVarScope (makesVarScope_root isProgram)⟩

theorem kind_eq_program_of_scopeType? {node : Cursor}
    (isGlobal : node.scopeType? = some .global) : node.kind = .program := by
  unfold scopeType? at isGlobal
  split at isGlobal
  next isProgram => exact isProgram
  all_goals grind

end Cursor

namespace ScopeBuilder.Follows

variable {builder : ScopeBuilder} {opened : List Cursor} {tree : Node}

theorem chainWithin_eq_of_lt {entered : List Cursor} (follows : builder.Follows entered opened)
    {bound bound' : Nat} {id : ScopeId} (isBound : id < bound) (isBound' : id < bound') :
    builder.table.chainWithin bound id = builder.table.chainWithin bound' id := by
  induction bound generalizing bound' id with
  | zero => exact absurd isBound (Nat.not_lt_zero id)
  | succ bound ih =>
      cases bound' with
      | zero => exact absurd isBound' (Nat.not_lt_zero id)
      | succ bound' =>
          rw [ScopeTable.chainWithin, ScopeTable.chainWithin]
          congr 1
          cases upperEq : builder.table.scopes[id]?.bind Scope.upper? with
          | none => rfl
          | some upper =>
              obtain ⟨scope, found, isUpper⟩ := Option.bind_eq_some_iff.mp upperEq
              have upperLt := follows.upper_lt id scope found upper isUpper
              exact ih (Nat.lt_of_lt_of_le upperLt (Nat.le_of_lt_succ isBound))
                (Nat.lt_of_lt_of_le upperLt (Nat.le_of_lt_succ isBound'))

theorem chain_eq {entered : List Cursor} (follows : builder.Follows entered opened)
    {id : ScopeId} {scope : Scope} (found : builder.table.scopes[id]? = some scope) :
    builder.table.chain id = id :: (scope.upper?.elim [] builder.table.chain) := by
  rw [ScopeTable.chain, ScopeTable.chainWithin, found, Option.bind_some]
  congr 1
  cases upperEq : scope.upper? with
  | none => rfl
  | some upper =>
      have upperLt := follows.upper_lt id scope found upper upperEq
      exact follows.chainWithin_eq_of_lt upperLt (Nat.lt_succ_self upper)

theorem nodup_blocks_of_tree (follows : builder.Follows tree.cursors opened) :
    (builder.table.scopes.map (·.block.address)).Nodup :=
  follows.nodup_blocks (Cursor.nodup_address_cursors tree)

theorem isScopeOf_root (follows : builder.Follows tree.cursors opened)
    (isProgram : tree.kind = .program) : builder.table.IsScopeOf 0 (Cursor.root tree) := by
  have makes := Cursor.makesScope_of_makesVarScope (Cursor.makesVarScope_root isProgram)
  obtain ⟨rest, cursorsEq⟩ : ∃ rest, tree.cursors = Cursor.root tree :: rest := by
    cases tree
    exact ⟨_, rfl⟩
  rw [ScopeTable.IsScopeOf, follows.blocks, cursorsEq, List.filter_cons_of_pos makes]
  rfl

/-- Around every scope but the first there is another one. -/
theorem exists_upper (follows : builder.Follows tree.cursors opened)
    (isProgram : tree.kind = .program) {id : ScopeId} {scope : Scope}
    (found : builder.table.scopes[id]? = some scope) (notFirst : id ≠ 0) :
    ∃ upperId upperScope, scope.upper? = some upperId ∧ upperId < id ∧
      builder.table.scopes[upperId]? = some upperScope ∧
      scope.block.ancestors.find? Cursor.makesScope = some upperScope.block := by
  have member := List.mem_of_getElem? found
  have notRoot : scope.block ≠ Cursor.root tree := by
    intro isRoot
    have isScope := ScopeTable.isScopeOf_block found
    rw [isRoot] at isScope
    exact notFirst (isScope.unique follows.nodup_blocks_of_tree
      (follows.isScopeOf_root isProgram))
  obtain ⟨block, ancestorFound⟩ :=
    Cursor.exists_find?_makesScope_ancestors isProgram (follows.mem_entered member) notRoot
  obtain ⟨upperId, upperEq, isScope⟩ :=
    ScopeTable.exists_id_of_rel (ancestorFound ▸ follows.uppers scope member)
  obtain ⟨upperScope, upperFound, rfl⟩ := isScope.exists_scope
  exact ⟨upperId, upperScope, upperEq, follows.upper_lt id scope found upperId upperEq,
    upperFound, ancestorFound⟩

theorem upper?_first {entered : List Cursor} (follows : builder.Follows entered opened)
    {scope : Scope} (found : builder.table.scopes[0]? = some scope) : scope.upper? = none := by
  cases upperEq : scope.upper? with
  | none => rfl
  | some upper =>
      exact absurd (follows.upper_lt 0 scope found upper upperEq) (Nat.not_lt_zero upper)

/-- The first scope is that of the program. -/
theorem exists_first (follows : builder.Follows tree.cursors opened)
    (isProgram : tree.kind = .program) :
    ∃ scope, builder.table.scopes[0]? = some scope ∧ scope.block = Cursor.root tree ∧
      scope.type = .global ∧ scope.upper? = none := by
  obtain ⟨scope, found, blockEq⟩ := (follows.isScopeOf_root isProgram).exists_scope
  have typeEq := follows.types scope (List.mem_of_getElem? found)
  rw [blockEq, Cursor.scopeType?_root isProgram] at typeEq
  exact ⟨scope, found, blockEq, (Option.some.inj typeEq).symm, follows.upper?_first found⟩

theorem getLast?_chain (follows : builder.Follows tree.cursors opened)
    (isProgram : tree.kind = .program) {id : ScopeId} {scope : Scope}
    (found : builder.table.scopes[id]? = some scope) :
    (builder.table.chain id).getLast? = some 0 := by
  induction id using Nat.strongRecOn generalizing scope with
  | ind id ih =>
      rw [follows.chain_eq found]
      by_cases isFirst : id = 0
      · subst isFirst
        rw [follows.upper?_first found]
        rfl
      · obtain ⟨upperId, upperScope, upperEq, upperLt, upperFound, -⟩ :=
          follows.exists_upper isProgram found isFirst
        have last := ih upperId upperLt upperFound
        rw [upperEq, Option.elim_some, List.getLast?_cons, last]
        rfl

/-- A scope that holds `var` declarations holds its own. -/
theorem variableScope_eq_self (follows : builder.Follows tree.cursors opened) {id : ScopeId}
    {scope : Scope} (found : builder.table.scopes[id]? = some scope)
    (holds : scope.type.holdsVar = true) : scope.variableScope = id := by
  have member := List.mem_of_getElem? found
  have makes : scope.block.makesVarScope = true := by
    rw [Cursor.makesVarScope, follows.types scope member]
    exact holds
  have nearest : scope.block.selfAndAncestors.find? Cursor.makesVarScope = some scope.block :=
    List.find?_cons_of_pos makes
  exact ScopeTable.IsScopeOf.unique follows.nodup_blocks_of_tree
    (follows.variableScopes scope member scope.block nearest) (ScopeTable.isScopeOf_block found)

/-- Any other scope shares the place of its `var` declarations with the scope
around it. -/
theorem variableScope_eq_upper (follows : builder.Follows tree.cursors opened)
    (isProgram : tree.kind = .program) {scope upperScope : Scope}
    (member : scope ∈ builder.table.scopes) (upperMem : upperScope ∈ builder.table.scopes)
    (isUpper : scope.block.ancestors.find? Cursor.makesScope = some upperScope.block)
    (holdsNot : scope.type.holdsVar = false) :
    scope.variableScope = upperScope.variableScope := by
  have makesNot : scope.block.makesVarScope = false := by
    rw [Cursor.makesVarScope, follows.types scope member]
    exact holdsNot
  obtain ⟨varBlock, nearest⟩ :=
    Cursor.exists_find?_makesVarScope isProgram (follows.mem_entered upperMem)
  have nearest' : scope.block.selfAndAncestors.find? Cursor.makesVarScope = some varBlock := by
    rw [Cursor.selfAndAncestors, List.find?_cons, makesNot,
      Cursor.find?_makesVarScope_ancestors isUpper, nearest]
  exact ScopeTable.IsScopeOf.unique follows.nodup_blocks_of_tree
    (follows.variableScopes scope member varBlock nearest')
    (follows.variableScopes upperScope upperMem varBlock nearest)

theorem find?_holdsVar_chain (follows : builder.Follows tree.cursors opened)
    (isProgram : tree.kind = .program) {id : ScopeId} {scope : Scope}
    (found : builder.table.scopes[id]? = some scope) :
    (builder.table.chain id).find? builder.table.holdsVar = some scope.variableScope := by
  induction id using Nat.strongRecOn generalizing scope with
  | ind id ih =>
      have holdsEq : builder.table.holdsVar id = scope.type.holdsVar := by
        rw [ScopeTable.holdsVar, found]
        rfl
      rw [follows.chain_eq found, List.find?_cons, holdsEq]
      cases holds : scope.type.holdsVar with
      | true => rw [follows.variableScope_eq_self found holds]
      | false =>
          have notFirst : id ≠ 0 := by
            rintro rfl
            obtain ⟨first, firstFound, -, isGlobal, -⟩ := follows.exists_first isProgram
            obtain rfl := Option.some.inj (found.symm.trans firstFound)
            simp [isGlobal, ScopeType.holdsVar] at holds
          obtain ⟨upperId, upperScope, upperEq, upperLt, upperFound, isUpper⟩ :=
            follows.exists_upper isProgram found notFirst
          rw [upperEq, follows.variableScope_eq_upper isProgram (List.mem_of_getElem? found)
            (List.mem_of_getElem? upperFound) isUpper holds]
          exact ih upperId upperLt upperFound

end ScopeBuilder.Follows

namespace ScopeTable

/-- The scopes of a program form the tree of scopes of its syntax tree. -/
theorem isScopeTreeOf_ofTree (source : Source) {tree : Node} (isProgram : tree.kind = .program) :
    (ofTree source tree).IsScopeTreeOf tree := by
  have follows := ScopeBuilder.follows_walk source tree
  constructor
  case blocks => exact follows.blocks
  case distinct => exact follows.nodup_blocks_of_tree
  case types => exact follows.types
  case first => exact follows.exists_first isProgram
  case onlyGlobal =>
    intro onlyRoot
    have isFirst : ∀ id scope, (ofTree source tree).scopes[id]? = some scope →
        scope.type = .global → id = 0 := by
      intro id scope found isGlobal
      have member := List.mem_of_getElem? found
      have typeEq := follows.types scope member
      rw [isGlobal] at typeEq
      have isRoot := onlyRoot scope.block (follows.mem_entered member)
        (Cursor.kind_eq_program_of_scopeType? typeEq)
      have isScope := isScopeOf_block found
      rw [isRoot] at isScope
      exact isScope.unique follows.nodup_blocks_of_tree (follows.isScopeOf_root isProgram)
    refine ⟨?_, isFirst⟩
    obtain ⟨first, firstFound, -, firstGlobal, -⟩ := follows.exists_first isProgram
    cases globalEq : (ofTree source tree).global? with
    | none =>
        exact absurd firstGlobal (follows.noGlobal globalEq first (List.mem_of_getElem? firstFound))
    | some id =>
        obtain ⟨scope, found, isGlobal⟩ := Option.map_eq_some_iff.mp (follows.global id globalEq)
        rw [isFirst id scope found isGlobal]
  case upper =>
    intro id scope found notFirst
    exact follows.exists_upper isProgram found notFirst
  case children => exact follows.children
  case chain =>
    intro id scope found
    exact ⟨follows.chain_eq found, follows.getLast?_chain isProgram found⟩
  case variableScope =>
    intro id scope found
    exact follows.find?_holdsVar_chain isProgram found

/-- A function whose body holds a loop over a block. -/
def sampleProgram : Node :=
  .ofChildren .program 0 26
    [.ofChildren .functionDeclaration 0 26
      [Node.inField (.leaf .identifier 9 10) .name,
        Node.inField (.leaf .formalParameters 10 12) .parameters,
        Node.inField
          (.ofChildren .statementBlock 12 26
            [.ofChildren .forStatement 13 25 [Node.inField (.leaf .statementBlock 21 25) .body]])
          .body]]

theorem isScopeTreeOf_sampleProgram :
    (ofTree [] sampleProgram).scopes.map Scope.type = [.global, .function, .loop, .block] ∧
      (ofTree [] sampleProgram).IsScopeTreeOf sampleProgram :=
  ⟨by decide +kernel, isScopeTreeOf_ofTree [] rfl⟩

end ScopeTable

end AssertLint
