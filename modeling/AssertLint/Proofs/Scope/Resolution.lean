import AssertLint.Proofs.Scope.Definitions

/-!
# Names are resolved lexically

A use of a name is looked up in two walks: one climbs the syntax tree to the
nearest node that made a scope, and the other follows the links between scopes
outwards.  Together they visit the scopes of the nodes around the use, from the
innermost to the outermost, and stop at the first that defines the name.
-/

namespace AssertLint

namespace ScopeTable

/-! ## The first walk -/

/-- The addresses under which scopes are found are those of their blocks. -/
def MadeByBlocks (table : ScopeTable) : Prop :=
  ∀ entry ∈ table.made, entry.1 ∈ table.scopes.map (·.block.address)

end ScopeTable

namespace ScopeBuilder

theorem map_address_of_bare_eq {builder later : ScopeBuilder}
    (bareEq : later.bare = builder.bare) :
    later.table.scopes.map (·.block.address) = builder.table.scopes.map (·.block.address) := by
  have mapped := congrArg (List.map Cursor.address) (blocks_of_bare_eq bareEq)
  simpa [Function.comp_def] using mapped

theorem madeByBlocks_of_bare_eq {builder later : ScopeBuilder}
    (bareEq : later.bare = builder.bare) (made : builder.table.MadeByBlocks) :
    later.table.MadeByBlocks := by
  have sameMade : later.table.made = builder.table.made := congrArg (·.table.made) bareEq
  intro entry member
  rw [map_address_of_bare_eq bareEq]
  exact made entry (sameMade ▸ member)

theorem madeByBlocks_openFor {builder : ScopeBuilder} (made : builder.table.MadeByBlocks)
    (node : Cursor) : (builder.openFor node).table.MadeByBlocks := by
  unfold openFor
  cases node.scopeType? with
  | none => exact made
  | some type =>
      intro entry member
      have blocksEq : (builder.nest type node).table.scopes.map (·.block.address) =
          builder.table.scopes.map (·.block.address) ++ [node.address] :=
        map_nest_of_withChild (fun _ _ => rfl) builder type node
      rw [blocksEq, List.mem_append]
      rcases List.mem_cons.mp member with rfl | earlier
      · exact Or.inr List.mem_cons_self
      · exact Or.inl (made entry earlier)

theorem madeByBlocks_walk (source : Source) (tree : Node) :
    (ScopeTable.ofTree source tree).MadeByBlocks := by
  have invariant : tree.WalkInvariant step fun (builder : ScopeBuilder) _ _ =>
      builder.table.MadeByBlocks := by
    constructor
    case enter =>
      intro builder entered node _ _ made
      change (builder.enter node).table.MadeByBlocks
      rw [enter_eq]
      apply madeByBlocks_of_bare_eq (bare_recordAll _ _)
      apply madeByBlocks_openFor
      exact madeByBlocks_of_bare_eq (bare_recordAll _ _) made
    case leave => exact fun builder entered node _ made => made
  exact invariant.foldl_walk (by simp [ScopeTable.MadeByBlocks, start])

end ScopeBuilder

namespace ScopeTable

section Tree

variable {source : Source} {tree : Node}

theorem isScopeOf_of_madeBy? {node : Cursor} (inTree : node ∈ tree.cursors) {id : ScopeId}
    (found : (ofTree source tree).madeBy? node = some id) :
    (ofTree source tree).IsScopeOf id node := by
  have follows := ScopeBuilder.follows_walk source tree
  have entryMem : (node.address, id) ∈ (ofTree source tree).made := by
    obtain ⟨front, rest, split, -⟩ := List.lookup_eq_some_iff.mp found
    simp [split]
  have addressMem := ScopeBuilder.madeByBlocks_walk source tree _ entryMem
  obtain ⟨scope, scopeMem, addressEq⟩ := List.mem_map.mp addressMem
  have blockLies := Cursor.mem_cursors_iff.mp (follows.mem_entered scopeMem)
  have blockEq := blockLies.eq_of_address_eq (Cursor.mem_cursors_iff.mp inTree) addressEq
  obtain ⟨place, placed⟩ := List.mem_iff_getElem?.mp scopeMem
  have made : (ofTree source tree).madeBy? scope.block = some place :=
    follows.made place scope placed
  rw [blockEq, found] at made
  rw [← blockEq, Option.some.inj made]
  exact isScopeOf_block placed

theorem madeBy?_eq_some_iff {node : Cursor} (inTree : node ∈ tree.cursors) {id : ScopeId} :
    (ofTree source tree).madeBy? node = some id ↔ (ofTree source tree).IsScopeOf id node := by
  constructor
  · exact isScopeOf_of_madeBy? inTree
  · intro isScope
    obtain ⟨scope, found, rfl⟩ := isScope.exists_scope
    exact (ScopeBuilder.follows_walk source tree).made id scope found

theorem exists_isScopeOf_iff (source : Source) {node : Cursor} (inTree : node ∈ tree.cursors) :
    (∃ id, (ofTree source tree).IsScopeOf id node) ↔ node.makesScope = true := by
  have blocksEq : (ofTree source tree).scopes.map Scope.block =
      tree.cursors.filter Cursor.makesScope := (ScopeBuilder.follows_walk source tree).blocks
  simp only [IsScopeOf, ← List.mem_iff_getElem?, blocksEq, List.mem_filter, inTree, true_and]

/-- Climbing the tree finds the scope of the nearest node that made one. -/
theorem rel_findSome?_madeBy? (source : Source) {nodes : List Cursor}
    (inTree : ∀ node ∈ nodes, node ∈ tree.cursors) :
    Option.Rel (ofTree source tree).IsScopeOf
      (nodes.findSome? (ofTree source tree).madeBy?) (nodes.find? Cursor.makesScope) := by
  induction nodes with
  | nil => exact Option.Rel.none
  | cons node higher ih =>
      have nodeIn := inTree node List.mem_cons_self
      have rest := ih fun other member => inTree other (List.mem_cons_of_mem node member)
      rw [List.findSome?_cons, List.find?_cons]
      cases made : (ofTree source tree).madeBy? node with
      | some id =>
          have isScope := isScopeOf_of_madeBy? nodeIn made
          rw [(exists_isScopeOf_iff source nodeIn).mp ⟨id, isScope⟩]
          exact Option.Rel.some isScope
      | none =>
          have makesNone : node.makesScope = false := by
            rw [← Bool.not_eq_true, ← exists_isScopeOf_iff source nodeIn]
            rintro ⟨id, isScope⟩
            simp [(madeBy?_eq_some_iff nodeIn).mpr isScope] at made
          rw [makesNone]
          exact rest

/-- A node of a program stands in the scope of the nearest node that made one. -/
theorem exists_scopeAt? (source : Source) (isProgram : tree.kind = .program) {node : Cursor}
    (inTree : node ∈ tree.cursors) :
    ∃ id block, (ofTree source tree).scopeAt? node = some id ∧
      node.selfAndAncestors.find? Cursor.makesScope = some block ∧
      (ofTree source tree).IsScopeOf id block := by
  have lies := Cursor.mem_cursors_iff.mp inTree
  have allIn : ∀ other ∈ node.selfAndAncestors, other ∈ tree.cursors := by
    intro other member
    rcases List.mem_cons.mp member with rfl | higher
    · exact inTree
    · exact Cursor.mem_cursors_iff.mpr (lies.of_mem_ancestors higher)
  obtain ⟨varBlock, nearest⟩ := Cursor.exists_find?_makesVarScope isProgram inTree
  have someMakes : ∃ block, node.selfAndAncestors.find? Cursor.makesScope = some block := by
    rw [← Option.isSome_iff_exists, List.find?_isSome]
    exact ⟨varBlock, List.mem_of_find?_eq_some nearest,
      Cursor.makesScope_of_makesVarScope (List.find?_some nearest)⟩
  obtain ⟨block, innermost⟩ := someMakes
  have related := rel_findSome?_madeBy? source allIn
  rw [innermost] at related
  obtain ⟨id, found, isScope⟩ := exists_id_of_rel related
  refine ⟨id, block, ?_, innermost, isScope⟩
  rw [scopeAt?, found]
  rfl

/-! ## The second walk -/

theorem filter_makesScope_ancestors {node block : Cursor}
    (nearest : node.ancestors.find? Cursor.makesScope = some block) :
    node.ancestors.filter Cursor.makesScope =
      block.selfAndAncestors.filter Cursor.makesScope := by
  obtain ⟨front, split, before⟩ := Cursor.exists_ancestors_eq_of_find? nearest
  have noneBefore : front.filter Cursor.makesScope = [] :=
    List.filter_eq_nil_iff.mpr fun other member => by simp [before other member]
  rw [split, List.filter_append, noneBefore, List.nil_append]

/-- The links from a scope outwards lead through the scopes of the nodes around its
block. -/
theorem forall₂_chain {id : ScopeId} {scope : Scope}
    (found : (ofTree source tree).scopes[id]? = some scope) :
    List.Forall₂ (ofTree source tree).IsScopeOf ((ofTree source tree).chain id)
      (scope.block.selfAndAncestors.filter Cursor.makesScope) := by
  have follows := ScopeBuilder.follows_walk source tree
  -- Scopes further out have smaller numbers.
  induction id using Nat.strongRecOn generalizing scope with
  | ind id ih =>
      have chainEq : (ofTree source tree).chain id =
          id :: (scope.upper?.elim [] (ofTree source tree).chain) := follows.chain_eq found
      have scopeMem := List.mem_of_getElem? found
      have makes : scope.block.makesScope = true := by
        rw [Cursor.makesScope, follows.types scope scopeMem]
        rfl
      rw [chainEq, Cursor.selfAndAncestors, List.filter_cons_of_pos makes]
      refine List.Forall₂.cons (isScopeOf_block found) ?_
      have upperRel : Option.Rel (ofTree source tree).IsScopeOf scope.upper?
          (scope.block.ancestors.find? Cursor.makesScope) := follows.uppers scope scopeMem
      cases upperEq : scope.upper? with
      | none =>
          rw [upperEq] at upperRel
          cases noneAbove : scope.block.ancestors.find? Cursor.makesScope with
          | none =>
              rw [List.filter_eq_nil_iff.mpr (List.find?_eq_none.mp noneAbove)]
              exact List.Forall₂.nil
          | some block =>
              rw [noneAbove] at upperRel
              cases upperRel
      | some upper =>
          rw [upperEq] at upperRel
          obtain ⟨block, nearest, isScope⟩ := exists_block_of_rel upperRel
          obtain ⟨upperScope, upperFound, rfl⟩ := isScope.exists_scope
          rw [filter_makesScope_ancestors nearest]
          exact ih upper (follows.upper_lt id scope found upper upperEq) upperFound

/-- The links from a scope outwards are followed as far as they go. -/
theorem isChain_chain {id : ScopeId} {scope : Scope}
    (found : (ofTree source tree).scopes[id]? = some scope) :
    ((ofTree source tree).chain id).IsChain
        (fun inner outer => (ofTree source tree).upper? inner = some outer) ∧
      ∀ last ∈ ((ofTree source tree).chain id).getLast?,
        (ofTree source tree).upper? last = none := by
  have follows := ScopeBuilder.follows_walk source tree
  induction id using Nat.strongRecOn generalizing scope with
  | ind id ih =>
      have chainEq : (ofTree source tree).chain id =
          id :: (scope.upper?.elim [] (ofTree source tree).chain) := follows.chain_eq found
      have upperHere : (ofTree source tree).upper? id = scope.upper? := by
        rw [upper?, found]
        rfl
      rw [chainEq]
      cases upperEq : scope.upper? with
      | none =>
          refine ⟨List.IsChain.singleton id, ?_⟩
          rintro last isLast
          obtain rfl : id = last := by simpa using isLast
          rw [upperHere, upperEq]
      | some upper =>
          have upperLt := follows.upper_lt id scope found upper upperEq
          obtain ⟨upperScope, upperFound⟩ : ∃ upperScope,
              (ofTree source tree).scopes[upper]? = some upperScope := by
            have upperRel : Option.Rel (ofTree source tree).IsScopeOf scope.upper?
                (scope.block.ancestors.find? Cursor.makesScope) :=
              follows.uppers scope (List.mem_of_getElem? found)
            rw [upperEq] at upperRel
            obtain ⟨block, -, isScope⟩ := exists_block_of_rel upperRel
            obtain ⟨upperScope, upperFound, -⟩ := isScope.exists_scope
            exact ⟨upperScope, upperFound⟩
          obtain ⟨linked, ends⟩ := ih upper upperLt upperFound
          have outerEq : (ofTree source tree).chain upper =
              upper :: (upperScope.upper?.elim [] (ofTree source tree).chain) :=
            follows.chain_eq upperFound
          rw [Option.elim_some]
          constructor
          · rw [outerEq] at linked ⊢
            exact List.IsChain.cons_cons (upperHere.trans upperEq) linked
          · rw [outerEq] at ends ⊢
            simpa using ends

/-! ## The first scope that defines the name -/

end Tree

/-- A variable is the one of a name in the scope of a block. -/
structure IsVariableOf (table : ScopeTable) (block : Cursor) (name : String) (id : VariableId) :
    Prop where
  isVariable : ∃ entry, table.entries[id]? = some entry ∧ entry.name = name ∧
    table.IsScopeOf entry.scope block
  listed : ∀ scope ∈ table.scopes, scope.block = block → id ∈ scope.entries
  only : ∀ scope ∈ table.scopes, scope.block = block → ∀ other ∈ scope.entries, ∀ entry,
    table.entries[other]? = some entry → entry.name = name → other = id

/-- A name means a variable inside some blocks, the innermost first: that of the
first block whose scope defines the name. -/
inductive Means (table : ScopeTable) (name : String) : List Cursor → VariableId → Prop where
  | here {block : Cursor} {outer : List Cursor} {id : VariableId}
      (isVariable : table.IsVariableOf block name id) : Means table name (block :: outer) id
  | further {block : Cursor} {outer : List Cursor} {id : VariableId}
      (undefined : ∀ definition, ¬ table.Defines block name definition)
      (beyond : Means table name outer id) : Means table name (block :: outer) id

theorem Means.exists_mem {table : ScopeTable} {name : String} {blocks : List Cursor}
    {id : VariableId} (means : table.Means name blocks id) :
    ∃ block ∈ blocks, table.IsVariableOf block name id := by
  induction means with
  | here isVariable => exact ⟨_, List.mem_cons_self, isVariable⟩
  | further undefined beyond ih =>
      obtain ⟨block, member, isVariable⟩ := ih
      exact ⟨block, List.mem_cons_of_mem _ member, isVariable⟩

section Lookup

variable {source : Source} {tree : Node} {name : String}

theorem named?_eq_none_iff (isProgram : tree.kind = .program) {scope : Scope}
    (member : scope ∈ (ofTree source tree).scopes) :
    scope.named? name = none ↔
      ∀ definition, ¬ (ofTree source tree).Defines scope.block name definition := by
  have follows := ScopeBuilder.follows_walk source tree
  have filed := isFiled_of_program source isProgram
  obtain ⟨number, found⟩ := List.mem_iff_getElem?.mp member
  constructor
  · rintro noneNamed definition ⟨scope', member', blockEq, entry, entryIn, isName, -⟩
    obtain rfl : scope' = scope := List.inj_on_of_nodup_map follows.nodup_blocks_of_tree member'
      member (congrArg Cursor.address blockEq)
    obtain ⟨id, isListed, entryFound⟩ := mem_variablesOf_iff.mp entryIn
    obtain ⟨_, entryFound', inScope⟩ := (filed.listed number scope' found id).mp isListed
    obtain rfl := Option.some.inj (entryFound.symm.trans entryFound')
    have isNamed := (filed.named number scope' found name id).mpr
      ⟨entry, entryFound, inScope, isName⟩
    simp [noneNamed] at isNamed
  · intro undefined
    rw [Option.eq_none_iff_forall_ne_some]
    intro id isNamed
    obtain ⟨entry, entryFound, inScope, isName⟩ :=
      (filed.named number scope found name id).mp isNamed
    obtain ⟨definition, isHeld⟩ :=
      filed.exists_mem_definitionsOf (List.mem_of_getElem? entryFound)
    refine undefined definition ⟨scope, member, rfl, entry, ?_, isName, isHeld⟩
    exact mem_variablesOf_iff.mpr
      ⟨id, (filed.listed number scope found id).mpr ⟨entry, entryFound, inScope⟩, entryFound⟩

theorem isVariableOf_iff (isProgram : tree.kind = .program) {number : ScopeId} {scope : Scope}
    (found : (ofTree source tree).scopes[number]? = some scope) {id : VariableId} :
    (ofTree source tree).IsVariableOf scope.block name id ↔ scope.named? name = some id := by
  have follows := ScopeBuilder.follows_walk source tree
  have filed := isFiled_of_program source isProgram
  rw [filed.named number scope found]
  constructor
  · rintro ⟨⟨entry, entryFound, isName, isScope⟩, -, -⟩
    exact ⟨entry, entryFound,
      isScope.unique follows.nodup_blocks_of_tree (isScopeOf_block found), isName⟩
  · rintro ⟨entry, entryFound, rfl, isName⟩
    have same {other : Scope} (member : other ∈ (ofTree source tree).scopes)
        (blockEq : other.block = scope.block) : other = scope :=
      List.inj_on_of_nodup_map follows.nodup_blocks_of_tree member (List.mem_of_getElem? found)
        (congrArg Cursor.address blockEq)
    constructor
    case isVariable => exact ⟨entry, entryFound, isName, isScopeOf_block found⟩
    case listed =>
      intro other member blockEq
      rw [same member blockEq]
      exact (filed.listed _ scope found id).mpr ⟨entry, entryFound, rfl⟩
    case only =>
      intro other member blockEq place isListed entry' entryFound' isName'
      rw [same member blockEq] at isListed
      obtain ⟨_, entryFound'', inScope⟩ := (filed.listed _ scope found place).mp isListed
      obtain rfl := Option.some.inj (entryFound'.symm.trans entryFound'')
      -- The name leads to both.
      have leads := (filed.named _ scope found name id).mpr ⟨entry, entryFound, rfl, isName⟩
      have leadsToo :=
        (filed.named _ scope found name place).mpr ⟨entry', entryFound', inScope, isName'⟩
      exact Option.some.inj (leadsToo.symm.trans leads)

/-- Looking a name up in a chain of scopes gives the variable that it means inside
the blocks of the scopes. -/
theorem lookUp?_eq_some_iff (isProgram : tree.kind = .program) {chain : List ScopeId}
    {blocks : List Cursor}
    (related : List.Forall₂ (ofTree source tree).IsScopeOf chain blocks) {id : VariableId} :
    (ofTree source tree).lookUp? name chain = some id ↔
      (ofTree source tree).Means name blocks id := by
  induction related with
  | nil =>
      constructor
      · intro nothing
        simp [lookUp?] at nothing
      · intro means
        cases means
  | @cons number block inner outer isScope rest ih =>
      obtain ⟨scope, found, rfl⟩ := isScope.exists_scope
      have member := List.mem_of_getElem? found
      have unfolded : (ofTree source tree).lookUp? name (number :: inner) =
          (scope.named? name).or ((ofTree source tree).lookUp? name inner) := by
        rw [lookUp?, List.findSome?_cons, found, Option.bind_some]
        cases scope.named? name <;> rfl
      rw [unfolded]
      cases isNamed : scope.named? name with
      | some here =>
          constructor
          · intro isId
            obtain rfl := Option.some.inj isId
            exact Means.here ((isVariableOf_iff isProgram found).mpr isNamed)
          · intro means
            cases means with
            | here isVariable =>
                have leads := (isVariableOf_iff isProgram found).mp isVariable
                rw [isNamed] at leads
                exact leads
            | further undefined beyond =>
                rw [(named?_eq_none_iff isProgram member).mpr undefined] at isNamed
                simp at isNamed
      | none =>
          have undefined := (named?_eq_none_iff isProgram member).mp isNamed
          constructor
          · intro isId
            exact Means.further undefined (ih.mp isId)
          · intro means
            cases means with
            | here isVariable =>
                rw [(isVariableOf_iff isProgram found).mp isVariable] at isNamed
                simp at isNamed
            | further _ beyond => exact ih.mpr beyond

theorem lookUp?_eq_none_iff (isProgram : tree.kind = .program) {chain : List ScopeId}
    {blocks : List Cursor}
    (related : List.Forall₂ (ofTree source tree).IsScopeOf chain blocks) :
    (ofTree source tree).lookUp? name chain = none ↔
      ∀ block ∈ blocks, ∀ definition, ¬ (ofTree source tree).Defines block name definition := by
  induction related with
  | nil => simp [lookUp?]
  | @cons number block inner outer isScope rest ih =>
      obtain ⟨scope, found, rfl⟩ := isScope.exists_scope
      rw [List.forall_mem_cons, ← ih,
        ← named?_eq_none_iff isProgram (List.mem_of_getElem? found), lookUp?,
        List.findSome?_cons, found, Option.bind_some]
      cases scope.named? name <;> simp [lookUp?]

end Lookup

/-! ## What cannot matter -/

/-- What is known about variables: by their names and in order in each scope, and all
variables and definitions by their numbers. -/
structure Register where
  byName : Scope → List (String × VariableId)
  listed : Scope → List VariableId
  entries : List Variable
  definitions : List Definition

/-- The table with other variables. -/
def withRegister (table : ScopeTable) (register : Register) : ScopeTable :=
  { table with
    scopes := table.scopes.map fun scope =>
      { scope with byName := register.byName scope, entries := register.listed scope }
    entries := register.entries
    definitions := register.definitions }

theorem chainWithin_withRegister (table : ScopeTable) (register : Register) (bound : Nat)
    (id : ScopeId) :
    (table.withRegister register).chainWithin bound id = table.chainWithin bound id := by
  have upperEq (place : ScopeId) :
      (table.withRegister register).scopes[place]?.bind Scope.upper? =
        table.scopes[place]?.bind Scope.upper? := by
    rw [withRegister, List.getElem?_map, Option.bind_map]
    rfl
  induction bound generalizing id with
  | zero => rfl
  | succ bound ih =>
      rw [chainWithin, chainWithin, upperEq]
      cases table.scopes[id]?.bind Scope.upper? with
      | none => rfl
      | some upper => exact congrArg _ (ih upper)

theorem lookUp?_withRegister {table : ScopeTable} {register : Register} {chain : List ScopeId}
    (kept : ∀ id ∈ chain, ∀ scope, table.scopes[id]? = some scope →
      register.byName scope = scope.byName) (name : String) :
    (table.withRegister register).lookUp? name chain = table.lookUp? name chain := by
  induction chain with
  | nil => rfl
  | cons id rest ih =>
      have namedEq : (table.withRegister register).scopes[id]?.bind (·.named? name) =
          table.scopes[id]?.bind (·.named? name) := by
        rw [withRegister, List.getElem?_map, Option.bind_map]
        cases found : table.scopes[id]? with
        | none => rfl
        | some scope => simp [Scope.named?, kept id List.mem_cons_self scope found]
      have restEq := ih fun other member => kept other (List.mem_cons_of_mem id member)
      simp only [lookUp?] at restEq ⊢
      rw [List.findSome?_cons, List.findSome?_cons, namedEq, restEq]

/-- What a use of a name refers to is determined lexically. -/
structure IsLexical (table : ScopeTable) (identifier : Cursor) (reference : Reference) :
    Prop where
  /-- The use stands in the scope of the nearest node that made one. -/
  scope : ∃ block, identifier.selfAndAncestors.find? Cursor.makesScope = some block ∧
    table.IsScopeOf reference.scope block
  /-- The links from that scope outwards lead through the scopes of the nodes
  around the use and end with the outermost of them. -/
  walk : (table.chain reference.scope).IsChain
    (fun inner outer => table.upper? inner = some outer)
  visits : List.Forall₂ table.IsScopeOf (table.chain reference.scope)
    (identifier.ancestors.filter Cursor.makesScope)
  ends : ∀ last ∈ (table.chain reference.scope).getLast?, table.upper? last = none
  /-- The use means the variable of its name in the first of these scopes that has
  one, and nothing if none of them defines the name. -/
  resolved : ∀ id, reference.resolved = some id ↔
    table.Means (table.text identifier) (identifier.ancestors.filter Cursor.makesScope) id
  unresolved : reference.resolved = none ↔
    ∀ block ∈ identifier.ancestors, block.makesScope = true →
      ∀ definition, ¬ table.Defines block (table.text identifier) definition
  enclosed : ∀ id, reference.resolved = some id →
    ∃ entry, table.entries[id]? = some entry ∧
      ∃ block ∈ identifier.ancestors, table.IsScopeOf entry.scope block
  /-- The variables of scopes that are not around the use do not matter. -/
  confined : ∀ register : Register,
    (∀ scope ∈ table.scopes, scope.block ∈ identifier.ancestors →
      register.byName scope = scope.byName) →
    (table.withRegister register).reference? identifier = some reference

/-- Every identifier of a program refers to what it means lexically. -/
theorem reference?_isLexical (source : Source) {tree : Node} (isProgram : tree.kind = .program)
    {identifier : Cursor} (inTree : identifier ∈ tree.cursors)
    (isIdentifier : identifier.kind = .identifier) :
    ∃ reference, (ofTree source tree).reference? identifier = some reference ∧
      (ofTree source tree).IsLexical identifier reference := by
  obtain ⟨id, block, scopeFound, nearest, isScope⟩ := exists_scopeAt? source isProgram inTree
  obtain ⟨scope, found, rfl⟩ := isScope.exists_scope
  have makesNone : ¬ identifier.makesScope = true := by
    simp [Cursor.makesScope, Cursor.scopeType?, isIdentifier]
  have nearestAbove : identifier.ancestors.find? Cursor.makesScope = some scope.block := by
    rw [Cursor.selfAndAncestors, List.find?_cons_of_neg makesNone] at nearest
    exact nearest
  have visits : List.Forall₂ (ofTree source tree).IsScopeOf ((ofTree source tree).chain id)
      (identifier.ancestors.filter Cursor.makesScope) := by
    rw [filter_makesScope_ancestors nearestAbove]
    exact forall₂_chain found
  obtain ⟨walk, ends⟩ := isChain_chain found
  have referenceEq : (ofTree source tree).reference? identifier =
      some ⟨id, (ofTree source tree).lookUp? ((ofTree source tree).text identifier)
        ((ofTree source tree).chain id)⟩ := by
    rw [reference?, if_pos isIdentifier, scopeFound]
    rfl
  refine ⟨_, referenceEq, ?_⟩
  constructor
  case scope => exact ⟨scope.block, nearest, isScope⟩
  case walk => exact walk
  case visits => exact visits
  case ends => exact ends
  case resolved => exact fun id => lookUp?_eq_some_iff isProgram visits
  case unresolved =>
    rw [lookUp?_eq_none_iff isProgram visits]
    simp only [List.mem_filter, and_imp]
  case enclosed =>
    intro variableId isResolved
    obtain ⟨block, member, isVariable⟩ :=
      ((lookUp?_eq_some_iff isProgram visits).mp isResolved).exists_mem
    obtain ⟨entry, entryFound, -, isScope⟩ := isVariable.isVariable
    exact ⟨entry, entryFound, block, (List.mem_filter.mp member).1, isScope⟩
  case confined =>
    intro register kept
    have keptAlong : ∀ number ∈ (ofTree source tree).chain id, ∀ other,
        (ofTree source tree).scopes[number]? = some other →
          register.byName other = other.byName := by
      intro number member other otherFound
      obtain ⟨block, blockMem, isOther⟩ := exists_related_of_mem visits member
      obtain ⟨other', otherFound', rfl⟩ := isOther.exists_scope
      obtain rfl := Option.some.inj (otherFound.symm.trans otherFound')
      exact kept other (List.mem_of_getElem? otherFound) (List.mem_filter.mp blockMem).1
    have sameScope : ((ofTree source tree).withRegister register).scopeAt? identifier = some id :=
      scopeFound
    rw [reference?, if_pos isIdentifier, sameScope, Option.map_some, chain,
      chainWithin_withRegister, ← chain, lookUp?_withRegister keptAlong]
    rfl

/-- The text `let a;{let a;a}`. -/
def shadowingText : Source := "let a;{let a;a}".toList

/-- The declaration of the one-letter name at an offset. -/
def sampleDeclaration (start : Nat) : Node :=
  .ofChildren .lexicalDeclaration (start - 4) (start + 2)
    [.ofChildren .variableDeclarator start (start + 1)
      [Node.inField (.leaf .identifier start (start + 1)) .name]]

/-- The tree of the text. -/
def shadowingTree : Node :=
  .ofChildren .program 0 15
    [sampleDeclaration 4,
      .ofChildren .statementBlock 6 15
        [sampleDeclaration 11,
          .ofChildren .expressionStatement 13 14 [.leaf .identifier 13 14]]]

/-- The use of the name in the inner block. -/
def shadowedUse : Cursor := (shadowingTree.cursors.getLast?).getD (Cursor.root shadowingTree)

theorem shadowedUse_isLexical :
    (ofTree shadowingText shadowingTree).reference? shadowedUse = some ⟨1, some 1⟩ ∧
      (ofTree shadowingText shadowingTree).IsLexical shadowedUse ⟨1, some 1⟩ := by
  have referenceEq : (ofTree shadowingText shadowingTree).reference? shadowedUse =
      some ⟨1, some 1⟩ := by
    decide +kernel
  have inTree : shadowedUse ∈ shadowingTree.cursors :=
    List.mem_of_getLast? rfl
  obtain ⟨reference, found, isLexical⟩ :=
    reference?_isLexical shadowingText rfl inTree rfl
  obtain rfl := Option.some.inj (referenceEq.symm.trans found)
  exact ⟨found, isLexical⟩

end ScopeTable

end AssertLint
