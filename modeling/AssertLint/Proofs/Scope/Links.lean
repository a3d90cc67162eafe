import AssertLint.Proofs.Scope.Entering
import AssertLint.Proofs.Tree.Walk

/-!
# The links between scopes

While a tree is walked, the scopes met so far stand for the nodes entered so far
that make one, and the current scope for the innermost open one.  This file
states what is known of a builder between two events of a walk, and shows that
opening and closing scopes keeps it.
-/

namespace AssertLint

namespace ScopeTable

/-- A number is that of the scope that a block has made. -/
def IsScopeOf (table : ScopeTable) (id : ScopeId) (block : Cursor) : Prop :=
  (table.scopes.map Scope.block)[id]? = some block

section IsScopeOf

variable {table later : ScopeTable} {id other : ScopeId} {block : Cursor}

theorem IsScopeOf.exists_scope (isScope : table.IsScopeOf id block) :
    ∃ scope, table.scopes[id]? = some scope ∧ scope.block = block := by
  rw [IsScopeOf, List.getElem?_map, Option.map_eq_some_iff] at isScope
  exact isScope

theorem isScopeOf_block {scope : Scope} (found : table.scopes[id]? = some scope) :
    table.IsScopeOf id scope.block := by
  rw [IsScopeOf, List.getElem?_map, found]
  rfl

theorem IsScopeOf.lt_length (isScope : table.IsScopeOf id block) :
    id < table.scopes.length := by
  obtain ⟨scope, found, -⟩ := isScope.exists_scope
  exact (List.getElem?_eq_some_iff.mp found).1

/-- Further scopes do not change the numbers of those that are there. -/
theorem IsScopeOf.of_append {blocks : List Cursor} (isScope : table.IsScopeOf id block)
    (appended : later.scopes.map Scope.block = table.scopes.map Scope.block ++ blocks) :
    later.IsScopeOf id block := by
  have bound : id < (table.scopes.map Scope.block).length := by
    simpa using isScope.lt_length
  rw [IsScopeOf, appended, List.getElem?_append_left bound]
  exact isScope

theorem IsScopeOf.eq_of_address_eq {block' : Cursor}
    (distinct : (table.scopes.map (·.block.address)).Nodup)
    (isScope : table.IsScopeOf id block) (isScope' : table.IsScopeOf other block')
    (same : block.address = block'.address) : id = other := by
  have bound : id < (table.scopes.map (·.block.address)).length := by
    simpa using isScope.lt_length
  refine (List.getElem?_inj bound distinct).mp ?_
  obtain ⟨scope, found, rfl⟩ := isScope.exists_scope
  obtain ⟨scope', found', rfl⟩ := isScope'.exists_scope
  simp [List.getElem?_map, found, found', same]

theorem IsScopeOf.unique (distinct : (table.scopes.map (·.block.address)).Nodup)
    (isScope : table.IsScopeOf id block) (isScope' : table.IsScopeOf other block) :
    id = other :=
  isScope.eq_of_address_eq distinct isScope' rfl

end IsScopeOf

theorem rel_isScopeOf_of_append {table later : ScopeTable} {blocks : List Cursor}
    {id? : Option ScopeId} {block? : Option Cursor}
    (related : Option.Rel table.IsScopeOf id? block?)
    (appended : later.scopes.map Scope.block = table.scopes.map Scope.block ++ blocks) :
    Option.Rel later.IsScopeOf id? block? := by
  cases related with
  | none => exact Option.Rel.none
  | some isScope => exact Option.Rel.some (isScope.of_append appended)

theorem exists_block_of_rel {table : ScopeTable} {id : ScopeId} {block? : Option Cursor}
    (related : Option.Rel table.IsScopeOf (some id) block?) :
    ∃ block, block? = some block ∧ table.IsScopeOf id block := by
  cases block? with
  | none => cases related
  | some block =>
      cases related with
      | some isScope => exact ⟨block, rfl, isScope⟩

theorem exists_id_of_rel {table : ScopeTable} {id? : Option ScopeId} {block : Cursor}
    (related : Option.Rel table.IsScopeOf id? (some block)) :
    ∃ id, id? = some id ∧ table.IsScopeOf id block := by
  cases id? with
  | none => cases related
  | some id =>
      cases related with
      | some isScope => exact ⟨id, rfl, isScope⟩

end ScopeTable

namespace Cursor

/-- The nearest scope for `var` declarations above a node is the one for the
nearest scope of any type. -/
theorem find?_makesVarScope_ancestors {node block : Cursor}
    (found : node.ancestors.find? makesScope = some block) :
    node.ancestors.find? makesVarScope = block.selfAndAncestors.find? makesVarScope := by
  obtain ⟨front, split, before⟩ := exists_ancestors_eq_of_find? found
  have noneBefore : front.find? makesVarScope = none := by
    rw [List.find?_eq_none]
    intro other member holdsVar
    have makes := makesScope_of_makesVarScope holdsVar
    rw [before other member] at makes
    simp at makes
  rw [split, List.find?_append, noneBefore, Option.none_or]

end Cursor

/-- A scope differs from an earlier one in its children only. -/
structure Scope.AgreesButChildren (scope old : Scope) : Prop where
  type : scope.type = old.type
  block : scope.block = old.block
  upper? : scope.upper? = old.upper?
  variableScope : scope.variableScope = old.variableScope
  byName : scope.byName = old.byName
  entries : scope.entries = old.entries

namespace ScopeBuilder

/-- What is known of a builder after some nodes have been entered, of which those
in the second list are still open, the innermost first. -/
structure Follows (builder : ScopeBuilder) (entered opened : List Cursor) : Prop where
  blocks : builder.table.scopes.map Scope.block = entered.filter Cursor.makesScope
  types : ∀ scope ∈ builder.table.scopes, scope.block.scopeType? = some scope.type
  current : Option.Rel builder.table.IsScopeOf builder.current?
    (opened.find? Cursor.makesScope)
  uppers : ∀ scope ∈ builder.table.scopes,
    Option.Rel builder.table.IsScopeOf scope.upper?
      (scope.block.ancestors.find? Cursor.makesScope)
  upper_lt : ∀ (id : ScopeId) (scope : Scope), builder.table.scopes[id]? = some scope →
    ∀ upper ∈ scope.upper?, upper < id
  children : ∀ id scope, builder.table.scopes[id]? = some scope →
    scope.children = (List.range builder.table.scopes.length).filter fun child =>
      builder.table.scopes[child]?.bind Scope.upper? = some id
  variableScopes : ∀ scope ∈ builder.table.scopes, ∀ block,
    scope.block.selfAndAncestors.find? Cursor.makesVarScope = some block →
      builder.table.IsScopeOf scope.variableScope block
  made : ∀ id scope, builder.table.scopes[id]? = some scope →
    builder.table.madeBy? scope.block = some id
  global : ∀ id, builder.table.global? = some id →
    builder.table.scopes[id]?.map Scope.type = some .global
  noGlobal : builder.table.global? = none →
    ∀ scope ∈ builder.table.scopes, scope.type ≠ .global

theorem follows_start (source : Source) : (start source).Follows [] [] := by
  constructor <;> simp [start]

/-- The scope that is opened for a block. -/
def newScope (builder : ScopeBuilder) (type : ScopeType) (block : Cursor) : Scope :=
  { type := type
    block := block
    upper? := builder.current?
    variableScope :=
      if type.holdsVar then builder.table.scopes.length
      else builder.currentVariableScope?.getD builder.table.scopes.length
    children := []
    byName := []
    entries := [] }

theorem length_scopesWithChild (builder : ScopeBuilder) (child : ScopeId) :
    (builder.scopesWithChild child).length = builder.table.scopes.length := by
  unfold scopesWithChild
  cases builder.current? with
  | none => rfl
  | some upper => exact List.length_modify _ _ _

theorem getElem?_scopesWithChild (builder : ScopeBuilder) (child id : ScopeId) :
    (builder.scopesWithChild child)[id]? = builder.table.scopes[id]?.map fun scope =>
      if builder.current? = some id then scope.withChild child else scope := by
  unfold scopesWithChild
  cases builder.current? with
  | none => simp
  | some upper =>
      by_cases here : upper = id
      · subst here
        simp
      · simp [here]

/-- The scopes after a scope has been opened. -/
theorem getElem?_nest (builder : ScopeBuilder) (type : ScopeType) (block : Cursor)
    (id : ScopeId) :
    (builder.nest type block).table.scopes[id]? =
      if id = builder.table.scopes.length then some (builder.newScope type block)
      else builder.table.scopes[id]?.map fun scope =>
        if builder.current? = some id then scope.withChild builder.table.scopes.length
        else scope := by
  have lengthEq := builder.length_scopesWithChild builder.table.scopes.length
  change (builder.scopesWithChild _ ++ [builder.newScope type block])[id]? = _
  rw [List.getElem?_append, lengthEq]
  by_cases isNew : id = builder.table.scopes.length
  · simp [isNew]
  · rw [if_neg isNew]
    by_cases isOld : id < builder.table.scopes.length
    · rw [if_pos isOld, getElem?_scopesWithChild]
    · have beyond : builder.table.scopes.length < id :=
        Nat.lt_of_le_of_ne (Nat.le_of_not_lt isOld) (Ne.symm isNew)
      have newBeyond : [builder.newScope type block][id - builder.table.scopes.length]? = none :=
        List.getElem?_eq_none (Nat.sub_pos_of_lt beyond)
      have oldBeyond : builder.table.scopes[id]? = none :=
        List.getElem?_eq_none (Nat.le_of_not_lt isOld)
      rw [if_neg isOld, newBeyond, oldBeyond, Option.map_none]

theorem length_nest (builder : ScopeBuilder) (type : ScopeType) (block : Cursor) :
    (builder.nest type block).table.scopes.length = builder.table.scopes.length + 1 := by
  change (builder.scopesWithChild _ ++ [builder.newScope type block]).length = _
  rw [List.length_append, length_scopesWithChild, List.length_singleton]

/-- A scope after an opening is the new one or an old one, which may have got a
child. -/
theorem eq_newScope_or_exists_of_nest {builder : ScopeBuilder} {type : ScopeType}
    {block : Cursor} {id : ScopeId} {scope : Scope}
    (found : (builder.nest type block).table.scopes[id]? = some scope) :
    (id = builder.table.scopes.length ∧ scope = builder.newScope type block) ∨
      ∃ old, builder.table.scopes[id]? = some old ∧ scope.AgreesButChildren old ∧
        scope.children =
          old.children ++
            if builder.current? = some id then [builder.table.scopes.length] else [] := by
  rw [getElem?_nest] at found
  split at found
  next isNew => exact Or.inl ⟨isNew, (Option.some.inj found).symm⟩
  next =>
    obtain ⟨old, oldFound, rfl⟩ := Option.map_eq_some_iff.mp found
    refine Or.inr ⟨old, oldFound, ?_, ?_⟩
    · by_cases here : builder.current? = some id
      · rw [if_pos here]
        exact ⟨rfl, rfl, rfl, rfl, rfl, rfl⟩
      · rw [if_neg here]
        exact ⟨rfl, rfl, rfl, rfl, rfl, rfl⟩
    · by_cases here : builder.current? = some id <;> simp [here, Scope.withChild]

theorem eq_newScope_or_exists_of_mem_nest {builder : ScopeBuilder} {type : ScopeType}
    {block : Cursor} {scope : Scope}
    (member : scope ∈ (builder.nest type block).table.scopes) :
    scope = builder.newScope type block ∨
      ∃ old ∈ builder.table.scopes, scope.AgreesButChildren old := by
  obtain ⟨id, found⟩ := List.mem_iff_getElem?.mp member
  rcases eq_newScope_or_exists_of_nest found with ⟨-, isNew⟩ | ⟨old, oldFound, agrees, -⟩
  · exact Or.inl isNew
  · exact Or.inr ⟨old, List.mem_of_getElem? oldFound, agrees⟩

theorem map_nest_of_withChild {α : Type} {part : Scope → α}
    (keeps : ∀ (scope : Scope) child, part (scope.withChild child) = part scope)
    (builder : ScopeBuilder) (type : ScopeType) (block : Cursor) :
    (builder.nest type block).table.scopes.map part =
      builder.table.scopes.map part ++ [part (builder.newScope type block)] := by
  change (builder.scopesWithChild _ ++ [builder.newScope type block]).map part = _
  rw [List.map_append]
  congr 1
  apply List.ext_getElem?
  intro id
  rw [List.getElem?_map, List.getElem?_map, getElem?_scopesWithChild, Option.map_map]
  congr 1
  funext scope
  by_cases here : builder.current? = some id <;> simp [here, keeps]

theorem blocks_nest (builder : ScopeBuilder) (type : ScopeType) (block : Cursor) :
    (builder.nest type block).table.scopes.map Scope.block =
      builder.table.scopes.map Scope.block ++ [block] :=
  map_nest_of_withChild (fun _ _ => rfl) builder type block

theorem isScopeOf_nest (builder : ScopeBuilder) (type : ScopeType) (block : Cursor) :
    (builder.nest type block).table.IsScopeOf builder.table.scopes.length block := by
  rw [ScopeTable.IsScopeOf, blocks_nest]
  simp

theorem upper?_nest (builder : ScopeBuilder) (type : ScopeType) (block : Cursor)
    (id : ScopeId) :
    (builder.nest type block).table.scopes[id]?.bind Scope.upper? =
      if id = builder.table.scopes.length then builder.current?
      else builder.table.scopes[id]?.bind Scope.upper? := by
  rw [getElem?_nest]
  by_cases isNew : id = builder.table.scopes.length
  · rw [if_pos isNew, if_pos isNew]
    rfl
  · rw [if_neg isNew, if_neg isNew, Option.bind_map]
    congr 1
    funext scope
    by_cases here : builder.current? = some id <;> simp [here, Scope.withChild]

namespace Follows

variable {builder : ScopeBuilder} {entered opened : List Cursor} {cursor : Cursor}
  {type : ScopeType}

theorem mem_entered (follows : builder.Follows entered opened) {scope : Scope}
    (member : scope ∈ builder.table.scopes) : scope.block ∈ entered := by
  have blockMem : scope.block ∈ builder.table.scopes.map Scope.block :=
    List.mem_map_of_mem member
  rw [follows.blocks] at blockMem
  exact (List.mem_filter.mp blockMem).1

theorem nodup_blocks (follows : builder.Follows entered opened)
    (distinct : (entered.map Cursor.address).Nodup) :
    (builder.table.scopes.map (·.block.address)).Nodup := by
  have addressesEq : builder.table.scopes.map (·.block.address) =
      (entered.filter Cursor.makesScope).map Cursor.address := by
    rw [← follows.blocks, List.map_map]
    rfl
  rw [addressesEq]
  exact distinct.sublist (List.filter_sublist.map Cursor.address)

/-- The scope for `var` declarations in the current one. -/
theorem exists_currentVariableScope? (follows : builder.Follows entered opened)
    {block varBlock : Cursor} (innermost : opened.find? Cursor.makesScope = some block)
    (nearest : block.selfAndAncestors.find? Cursor.makesVarScope = some varBlock) :
    ∃ id, builder.currentVariableScope? = some id ∧ builder.table.IsScopeOf id varBlock := by
  obtain ⟨id, currentEq, isScope⟩ := ScopeTable.exists_id_of_rel (innermost ▸ follows.current)
  obtain ⟨scope, found, rfl⟩ := isScope.exists_scope
  refine ⟨scope.variableScope, ?_,
    follows.variableScopes scope (List.mem_of_getElem? found) varBlock nearest⟩
  rw [currentVariableScope?, currentEq, Option.bind_some, found, Option.map_some]

theorem variableScope_newScope (follows : builder.Follows entered cursor.ancestors)
    (isType : cursor.scopeType? = some type) {varBlock : Cursor}
    (nearest : cursor.selfAndAncestors.find? Cursor.makesVarScope = some varBlock) :
    (builder.nest type cursor).table.IsScopeOf (builder.newScope type cursor).variableScope
      varBlock := by
  have typeHolds : cursor.makesVarScope = type.holdsVar := by
    rw [Cursor.makesVarScope, isType]
    rfl
  rw [Cursor.selfAndAncestors, List.find?_cons, typeHolds] at nearest
  unfold ScopeBuilder.newScope
  cases holds : type.holdsVar with
  | true =>
      rw [holds] at nearest
      obtain rfl := Option.some.inj nearest
      exact builder.isScopeOf_nest type cursor
  | false =>
      rw [holds] at nearest
      cases innermost : cursor.ancestors.find? Cursor.makesScope with
      | none =>
          rw [List.find?_eq_none] at innermost
          have makes := Cursor.makesScope_of_makesVarScope (List.find?_some nearest)
          exact absurd makes (innermost varBlock (List.mem_of_find?_eq_some nearest))
      | some block =>
          rw [Cursor.find?_makesVarScope_ancestors innermost] at nearest
          obtain ⟨id, currentEq, isScope⟩ :=
            follows.exists_currentVariableScope? innermost nearest
          simpa [currentEq] using isScope.of_append (builder.blocks_nest type cursor)

theorem current_lt (follows : builder.Follows entered opened) {id : ScopeId}
    (isCurrent : builder.current? = some id) : id < builder.table.scopes.length := by
  obtain ⟨block, -, isScope⟩ := ScopeTable.exists_block_of_rel (isCurrent ▸ follows.current)
  exact isScope.lt_length

private theorem children_nest (follows : builder.Follows entered opened) {id : ScopeId}
    {scope : Scope} (found : (builder.nest type cursor).table.scopes[id]? = some scope) :
    scope.children =
      (List.range (builder.nest type cursor).table.scopes.length).filter fun child =>
        (builder.nest type cursor).table.scopes[child]?.bind Scope.upper? = some id := by
  -- The scopes with the given one around them: the old ones, and perhaps the new one.
  have split : ((List.range (builder.nest type cursor).table.scopes.length).filter fun child =>
      (builder.nest type cursor).table.scopes[child]?.bind Scope.upper? = some id) =
      ((List.range builder.table.scopes.length).filter fun child =>
        builder.table.scopes[child]?.bind Scope.upper? = some id) ++
      if builder.current? = some id then [builder.table.scopes.length] else [] := by
    rw [length_nest, List.range_succ, List.filter_append]
    congr 1
    · apply List.filter_congr
      intro child member
      have isOld : child ≠ builder.table.scopes.length := by
        have bound := List.mem_range.mp member
        omega
      rw [upper?_nest, if_neg isOld]
    · by_cases isCurrent : builder.current? = some id <;>
        simp [upper?_nest, isCurrent]
  rw [split]
  rcases eq_newScope_or_exists_of_nest found with ⟨rfl, rfl⟩ | ⟨old, oldFound, -, childrenEq⟩
  · rw [if_neg (fun isCurrent => Nat.lt_irrefl _ (follows.current_lt isCurrent)),
      List.append_nil]
    symm
    apply List.filter_eq_nil_iff.mpr
    intro child member upperEq
    obtain ⟨inner, innerFound, innerUpper⟩ :=
      Option.bind_eq_some_iff.mp (of_decide_eq_true upperEq)
    have bound := List.mem_range.mp member
    have upperLt := follows.upper_lt child inner innerFound _ innerUpper
    exact Nat.lt_asymm bound upperLt
  · rw [childrenEq, follows.children id old oldFound]

private theorem madeBy?_nest (follows : builder.Follows entered opened)
    (fresh : cursor.address ∉ entered.map Cursor.address) {id : ScopeId} {scope : Scope}
    (found : (builder.nest type cursor).table.scopes[id]? = some scope) :
    (builder.nest type cursor).table.madeBy? scope.block = some id := by
  change ((cursor.address, builder.table.scopes.length) :: builder.table.made).lookup
    scope.block.address = some id
  rcases eq_newScope_or_exists_of_nest found with ⟨rfl, rfl⟩ | ⟨old, oldFound, agrees, -⟩
  · exact List.lookup_cons_self
  · have oldMem := follows.mem_entered (List.mem_of_getElem? oldFound)
    have differ : old.block.address ≠ cursor.address := fun same =>
      fresh (List.mem_map.mpr ⟨old.block, oldMem, same⟩)
    rw [agrees.block, List.lookup_cons, beq_eq_false_iff_ne.mpr differ]
    exact follows.made id old oldFound

private theorem global_nest (follows : builder.Follows entered opened) {id : ScopeId}
    (globalEq : (builder.nest type cursor).table.global? = some id) :
    (builder.nest type cursor).table.scopes[id]?.map Scope.type = some .global := by
  change (if type = .global then some _ else builder.table.global?) = some id at globalEq
  rw [← List.getElem?_map, map_nest_of_withChild (fun _ _ => rfl)]
  by_cases isGlobal : type = .global
  · rw [if_pos isGlobal] at globalEq
    obtain rfl := Option.some.inj globalEq
    simp [ScopeBuilder.newScope, isGlobal]
  · rw [if_neg isGlobal] at globalEq
    have old := follows.global id globalEq
    rw [← List.getElem?_map] at old
    rw [List.getElem?_append_left (List.getElem?_eq_some_iff.mp old).1]
    exact old

private theorem noGlobal_nest (follows : builder.Follows entered opened)
    (globalEq : (builder.nest type cursor).table.global? = none) {scope : Scope}
    (member : scope ∈ (builder.nest type cursor).table.scopes) : scope.type ≠ .global := by
  change (if type = .global then some _ else builder.table.global?) = none at globalEq
  by_cases isGlobal : type = .global
  · simp [isGlobal] at globalEq
  · rw [if_neg isGlobal] at globalEq
    rcases eq_newScope_or_exists_of_mem_nest member with rfl | ⟨old, oldMem, agrees⟩
    · exact isGlobal
    · rw [agrees.type]
      exact follows.noGlobal globalEq old oldMem

/-- Opening the scope of a node. -/
theorem nest (follows : builder.Follows entered cursor.ancestors)
    (fresh : cursor.address ∉ entered.map Cursor.address)
    (isType : cursor.scopeType? = some type) :
    (builder.nest type cursor).Follows (entered ++ [cursor]) cursor.selfAndAncestors := by
  have appended := builder.blocks_nest type cursor
  have isNew := builder.isScopeOf_nest type cursor
  have makes : cursor.makesScope = true := by rw [Cursor.makesScope, isType]; rfl
  constructor
  case blocks =>
    rw [appended, follows.blocks, List.filter_append,
      List.filter_cons_of_pos makes, List.filter_nil]
  case types =>
    intro scope member
    rcases eq_newScope_or_exists_of_mem_nest member with rfl | ⟨old, oldMem, agrees⟩
    · exact isType
    · rw [agrees.type, agrees.block]
      exact follows.types old oldMem
  case current =>
    rw [Cursor.selfAndAncestors, List.find?_cons, makes]
    exact Option.Rel.some isNew
  case uppers =>
    intro scope member
    rcases eq_newScope_or_exists_of_mem_nest member with rfl | ⟨old, oldMem, agrees⟩
    · exact ScopeTable.rel_isScopeOf_of_append follows.current appended
    · rw [agrees.block, agrees.upper?]
      exact ScopeTable.rel_isScopeOf_of_append (follows.uppers old oldMem) appended
  case upper_lt =>
    intro id scope found upper upperMem
    rcases eq_newScope_or_exists_of_nest found with ⟨rfl, rfl⟩ | ⟨old, oldFound, agrees, -⟩
    · exact follows.current_lt upperMem
    · rw [agrees.upper?] at upperMem
      exact follows.upper_lt id old oldFound upper upperMem
  case children => exact fun id scope found => follows.children_nest found
  case variableScopes =>
    intro scope member varBlock nearest
    rcases eq_newScope_or_exists_of_mem_nest member with rfl | ⟨old, oldMem, agrees⟩
    · exact follows.variableScope_newScope isType nearest
    · rw [agrees.block] at nearest
      rw [agrees.variableScope]
      exact (follows.variableScopes old oldMem varBlock nearest).of_append appended
  case made => exact fun id scope found => follows.madeBy?_nest fresh found
  case global => exact fun id globalEq => follows.global_nest globalEq
  case noGlobal => exact fun globalEq scope member => follows.noGlobal_nest globalEq member

/-- Entering a node that makes no scope. -/
theorem pass (follows : builder.Follows entered opened) (makesNone : cursor.scopeType? = none) :
    builder.Follows (entered ++ [cursor]) (cursor :: opened) := by
  have makes : cursor.makesScope = false := by rw [Cursor.makesScope, makesNone]; rfl
  have blocks : builder.table.scopes.map Scope.block =
      (entered ++ [cursor]).filter Cursor.makesScope := by
    rw [follows.blocks, List.filter_append, List.filter_cons_of_neg (by simp [makes]),
      List.filter_nil, List.append_nil]
  have current : Option.Rel builder.table.IsScopeOf builder.current?
      ((cursor :: opened).find? Cursor.makesScope) := by
    rw [List.find?_cons, makes]
    exact follows.current
  exact { follows with blocks := blocks, current := current }

theorem openFor (follows : builder.Follows entered cursor.ancestors)
    (fresh : cursor.address ∉ entered.map Cursor.address) :
    (builder.openFor cursor).Follows (entered ++ [cursor]) cursor.selfAndAncestors := by
  unfold ScopeBuilder.openFor
  cases isType : cursor.scopeType? with
  | none => exact follows.pass isType
  | some type => exact follows.nest fresh isType

/-- The innermost scope of a chain that a node did not make, when the chain starts
with the scope of an ancestor. -/
private theorem find?_chainWithin_of_mem_ancestors {table : ScopeTable} {bound : Nat}
    {id : ScopeId} {block : Cursor} (positive : 0 < bound) (isScope : table.IsScopeOf id block)
    (member : block ∈ cursor.ancestors) :
    ((table.chainWithin bound id).find? fun outer =>
      decide (table.scopes[outer]?.map (·.block.address) ≠ some cursor.address)) = some id := by
  obtain ⟨scope, found, rfl⟩ := isScope.exists_scope
  have differ := Cursor.address_ne_of_mem_ancestors member
  cases bound with
  | zero => omega
  | succ bound => rw [ScopeTable.chainWithin, List.find?_cons_of_pos (by simp [found, differ])]

/-- Closing the scopes of a node. -/
theorem close (follows : builder.Follows entered cursor.selfAndAncestors) :
    (builder.close cursor).Follows entered cursor.ancestors := by
  have current : Option.Rel builder.table.IsScopeOf (builder.close cursor).current?
      (cursor.ancestors.find? Cursor.makesScope) := by
    have before := follows.current
    rw [Cursor.selfAndAncestors, List.find?_cons] at before
    have closed : (builder.close cursor).current? = builder.current?.bind fun id =>
        (builder.table.chainWithin (id + 1) id).find? fun outer =>
          decide (builder.table.scopes[outer]?.map (·.block.address) ≠ some cursor.address) :=
      rfl
    rw [closed]
    cases makes : cursor.makesScope with
    | true =>
        -- The current scope is that of the node, and the scope around it stays open.
        rw [makes] at before
        obtain ⟨id, currentEq, isScope⟩ := ScopeTable.exists_id_of_rel before
        obtain ⟨scope, found, blockEq⟩ := isScope.exists_scope
        have upperRel := follows.uppers scope (List.mem_of_getElem? found)
        rw [blockEq] at upperRel
        rw [currentEq, Option.bind_some, ScopeTable.chainWithin,
          List.find?_cons_of_neg (by simp [found, blockEq]), found, Option.bind_some]
        cases upperEq : scope.upper? with
        | none =>
            rw [upperEq] at upperRel
            exact upperRel
        | some upper =>
            rw [upperEq] at upperRel
            obtain ⟨block, ancestorFound, isUpper⟩ := ScopeTable.exists_block_of_rel upperRel
            have upperLt : upper < id := follows.upper_lt id scope found upper upperEq
            rw [find?_chainWithin_of_mem_ancestors (Nat.zero_lt_of_lt upperLt) isUpper
              (List.mem_of_find?_eq_some ancestorFound)]
            exact upperRel
    | false =>
        -- The node made no scope, so the current scope is that of an ancestor.
        rw [makes] at before
        cases currentEq : builder.current? with
        | none =>
            rw [currentEq] at before
            exact before
        | some id =>
            rw [currentEq] at before
            obtain ⟨block, ancestorFound, isScope⟩ := ScopeTable.exists_block_of_rel before
            rw [Option.bind_some, find?_chainWithin_of_mem_ancestors (Nat.succ_pos id) isScope
              (List.mem_of_find?_eq_some ancestorFound)]
            exact before
  exact { follows with current := current }

end Follows

/-- The names in the scopes do not matter. -/
theorem follows_of_bare {builder : ScopeBuilder} {entered opened : List Cursor}
    (follows : builder.bare.Follows entered opened) : builder.Follows entered opened := by
  have scopeEq : builder.bare.table.IsScopeOf = builder.table.IsScopeOf := by
    funext id block
    simp [ScopeTable.IsScopeOf, bare, ScopeTable.bare, Scope.bare, Function.comp_def]
  have upperEq (id : ScopeId) : builder.bare.table.scopes[id]?.bind Scope.upper? =
      builder.table.scopes[id]?.bind Scope.upper? := by
    rw [bare, ScopeTable.bare, List.getElem?_map, Option.bind_map]
    rfl
  have lengthEq : builder.bare.table.scopes.length = builder.table.scopes.length :=
    List.length_map Scope.bare
  have bareMem {scope : Scope} (member : scope ∈ builder.table.scopes) :
      scope.bare ∈ builder.bare.table.scopes := List.mem_map_of_mem member
  have bareFound {id : ScopeId} {scope : Scope} (found : builder.table.scopes[id]? = some scope) :
      builder.bare.table.scopes[id]? = some scope.bare := by
    rw [bare, ScopeTable.bare, List.getElem?_map, found]
    rfl
  constructor
  case blocks => simpa [bare, ScopeTable.bare, Scope.bare, Function.comp_def] using follows.blocks
  case types => exact fun scope member => follows.types scope.bare (bareMem member)
  case current => exact scopeEq ▸ follows.current
  case uppers =>
    exact fun scope member => scopeEq ▸ follows.uppers scope.bare (bareMem member)
  case upper_lt => exact fun id scope found => follows.upper_lt id scope.bare (bareFound found)
  case children =>
    intro id scope found
    have listed := follows.children id scope.bare (bareFound found)
    simp only [upperEq, lengthEq] at listed
    exact listed
  case variableScopes =>
    exact fun scope member => scopeEq ▸ follows.variableScopes scope.bare (bareMem member)
  case made => exact fun id scope found => follows.made id scope.bare (bareFound found)
  case global =>
    intro id globalEq
    simpa [bare, ScopeTable.bare, Scope.bare, Function.comp_def] using follows.global id globalEq
  case noGlobal =>
    exact fun globalEq scope member => follows.noGlobal globalEq scope.bare (bareMem member)

theorem bare_follows_enter {builder : ScopeBuilder} {entered : List Cursor} {cursor : Cursor}
    (follows : builder.bare.Follows entered cursor.ancestors)
    (fresh : cursor.address ∉ entered.map Cursor.address) :
    (builder.enter cursor).bare.Follows (entered ++ [cursor]) cursor.selfAndAncestors := by
  rw [enter_eq, bare_recordAll, bare_openFor, bare_recordAll]
  exact follows.openFor fresh

theorem bare_follows_close {builder : ScopeBuilder} {entered : List Cursor} {cursor : Cursor}
    (follows : builder.bare.Follows entered cursor.selfAndAncestors) :
    (builder.close cursor).bare.Follows entered cursor.ancestors := by
  rw [bare_close]
  exact follows.close

theorem walkInvariant_follows (tree : Node) :
    tree.WalkInvariant step fun (builder : ScopeBuilder) entered opened =>
      builder.bare.Follows entered opened where
  enter := fun _ _ _ _ fresh follows => bare_follows_enter follows fresh
  leave := fun _ _ _ _ follows => bare_follows_close follows

/-- What is known of a builder after a tree has been walked. -/
theorem follows_walk (source : Source) (tree : Node) :
    (tree.walk.foldl step (start source)).Follows tree.cursors [] :=
  follows_of_bare ((walkInvariant_follows tree).foldl_walk (follows_start source))

end ScopeBuilder

end AssertLint
