import AssertLint.Proofs.Scope.Filing
import AssertLint.Proofs.Scope.Tree

/-!
# The names in the scopes

A walk makes the definitions of its nodes in order, and files each of them in the
scope of the block that it belongs to.  Which block that is can be read off the tree:
it is the nearest node of a kind above the node that makes the definition.
-/

namespace AssertLint

/-- The block to which a name at a place of a node belongs. -/
def Place.block? (place : Place) (node : Cursor) : Option Cursor :=
  match place with
  | outside => node.ancestors.find? Cursor.makesScope
  | inside => node.selfAndAncestors.find? Cursor.makesScope
  | hoisted => node.selfAndAncestors.find? Cursor.makesVarScope

/-- The definitions that a node makes, each with the block to which it belongs. -/
def Cursor.sites (source : Source) (node : Cursor) : List (Option Cursor × Definition) :=
  (node.bindings source).map fun binding => (binding.place.block? node, binding.definition)

namespace ScopeBuilder

/-- A builder has recorded sites: their definitions have been made in order, and each is
filed under a variable in the scope of the block of its site. -/
structure Records (builder : ScopeBuilder) (source : Source)
    (sites : List (Option Cursor × Definition)) : Prop where
  source_eq : builder.table.source = source
  filed : builder.table.IsFiled
  made : builder.table.definitions = sites.map Prod.snd
  placed : ∀ (number : DefinitionId) (site : Option Cursor × Definition),
    sites[number]? = some site → ∀ entry ∈ builder.table.entries, number ∈ entry.definitions →
      ∃ block, site.1 = some block ∧ builder.table.IsScopeOf entry.scope block

theorem blocks_of_bare_eq {builder later : ScopeBuilder} (bareEq : later.bare = builder.bare) :
    later.table.scopes.map Scope.block = builder.table.scopes.map Scope.block := by
  have scopesEq := congrArg (·.table.scopes.map Scope.block) bareEq
  simpa [bare, ScopeTable.bare, Scope.bare, Function.comp_def] using scopesEq

theorem isScopeOf_of_bare_eq {builder later : ScopeBuilder} (bareEq : later.bare = builder.bare)
    {id : ScopeId} {block : Cursor} (isScope : builder.table.IsScopeOf id block) :
    later.table.IsScopeOf id block := by
  rw [ScopeTable.IsScopeOf, blocks_of_bare_eq bareEq]
  exact isScope

namespace Records

variable {builder : ScopeBuilder} {source : Source}
  {sites : List (Option Cursor × Definition)}

/-- Recording a binding in the scope of its block. -/
theorem record (records : builder.Records source sites) {binding : Binding}
    {id : ScopeId} {block : Cursor} (scopeEq : builder.scopeFor? binding.place = some id)
    (isScope : builder.table.IsScopeOf id block) :
    (builder.record binding).Records source (sites ++ [(some block, binding.definition)]) := by
  have bareEq : (builder.record binding).bare = builder.bare := bare_define _ _ _
  have tableEq : (builder.record binding).table = builder.table.define id binding.definition := by
    rw [ScopeBuilder.record, scopeEq]
    rfl
  have lengthEq : builder.table.definitions.length = sites.length := by
    rw [records.made, List.length_map]
  constructor
  case source_eq => exact (source_of_bare_eq bareEq).trans records.source_eq
  case filed =>
    rw [tableEq]
    exact records.filed.define isScope.lt_length _
  case made => rw [tableEq, ScopeTable.definitions_define, records.made, List.map_append]; rfl
  case placed =>
    intro number site siteFound entry entryMem member
    obtain ⟨place, entryFound⟩ := List.mem_iff_getElem?.mp entryMem
    rw [tableEq] at entryFound
    rcases records.filed.mem_definitions_define entryFound member with
      ⟨rfl, inScope⟩ | ⟨old, oldFound, oldMem, sameScope⟩
    · -- The new definition is that of the last site.
      obtain rfl : (some block, binding.definition) = site := by
        simpa [lengthEq] using siteFound
      exact ⟨block, rfl, isScopeOf_of_bare_eq bareEq (inScope ▸ isScope)⟩
    · have bound : number < sites.length := by
        rw [← lengthEq, ← List.mem_range, ← records.filed.once.mem_iff]
        exact List.mem_flatMap.mpr ⟨old, List.mem_of_getElem? oldFound, oldMem⟩
      rw [List.getElem?_append_left bound] at siteFound
      obtain ⟨block', siteEq, isScope'⟩ :=
        records.placed number site siteFound old (List.mem_of_getElem? oldFound) oldMem
      exact ⟨block', siteEq, isScopeOf_of_bare_eq bareEq (sameScope ▸ isScope')⟩

/-- Recording bindings of a node, each in the scope of its block. -/
theorem recordAll (records : builder.Records source sites) {node : Cursor}
    {bindings : List Binding}
    (placed : ∀ binding ∈ bindings, ∃ id block, builder.scopeFor? binding.place = some id ∧
      binding.place.block? node = some block ∧ builder.table.IsScopeOf id block) :
    (builder.recordAll bindings).Records source
      (sites ++ bindings.map fun binding => (binding.place.block? node, binding.definition)) := by
  induction bindings generalizing builder sites with
  | nil =>
      rw [List.map_nil, List.append_nil]
      exact records
  | cons binding rest ih =>
      obtain ⟨id, block, scopeEq, blockEq, isScope⟩ := placed binding List.mem_cons_self
      have bareEq : (builder.record binding).bare = builder.bare := bare_define _ _ _
      rw [List.map_cons, List.append_cons, blockEq]
      apply ih (records.record scopeEq isScope)
      intro later member
      obtain ⟨id', block', scopeEq', blockEq', isScope'⟩ :=
        placed later (List.mem_cons_of_mem binding member)
      exact ⟨id', block', (scopeFor?_of_bare_eq bareEq _).trans scopeEq', blockEq',
        isScopeOf_of_bare_eq bareEq isScope'⟩

/-- Opening a scope. -/
theorem openFor (records : builder.Records source sites) (cursor : Cursor) :
    (builder.openFor cursor).Records source sites := by
  have filed := records.filed.openFor cursor
  unfold ScopeBuilder.openFor at filed ⊢
  cases isType : cursor.scopeType? with
  | none => exact records
  | some type =>
      rw [isType] at filed
      refine ⟨records.source_eq, filed, records.made, ?_⟩
      intro number site siteFound entry entryMem member
      obtain ⟨block, siteEq, isScope⟩ :=
        records.placed number site siteFound entry entryMem member
      exact ⟨block, siteEq, isScope.of_append (builder.blocks_nest type cursor)⟩

end Records

theorem place_of_mem_outerBindings {node : Cursor} {binding : Binding}
    (member : binding ∈ node.outerBindings) :
    binding.place = .outside ∧ node.kind ≠ .program := by
  unfold Cursor.outerBindings Cursor.ownNameBindings at member
  split at member <;> grind

theorem place_of_mem_innerBindings {source : Source} {node : Cursor} {binding : Binding}
    (member : binding ∈ node.innerBindings source) : binding.place ≠ .outside := by
  unfold Cursor.innerBindings Cursor.parameterBindings Cursor.ownNameBindings
    Cursor.loopBindings Cursor.variableBindings Cursor.importBindings
    Cursor.patternBindings at member
  split at member <;> grind

/-- Once a node of a program is entered, the scope at a place inside it is that of
the block to which the names there belong. -/
theorem Follows.exists_scopeFor? {builder : ScopeBuilder} {entered : List Cursor} {tree : Node}
    {cursor : Cursor} (follows : builder.Follows entered cursor.selfAndAncestors)
    (isProgram : tree.kind = .program) (inTree : cursor ∈ tree.cursors) {place : Place}
    (isInside : place ≠ .outside) :
    ∃ id block, builder.scopeFor? place = some id ∧ place.block? cursor = some block ∧
      builder.table.IsScopeOf id block := by
  obtain ⟨varBlock, nearest⟩ := Cursor.exists_find?_makesVarScope isProgram inTree
  obtain ⟨block, innermost⟩ : ∃ block,
      cursor.selfAndAncestors.find? Cursor.makesScope = some block := by
    rw [← Option.isSome_iff_exists, List.find?_isSome]
    exact ⟨varBlock, List.mem_of_find?_eq_some nearest,
      Cursor.makesScope_of_makesVarScope (List.find?_some nearest)⟩
  cases place with
  | outside => exact absurd rfl isInside
  | inside =>
      obtain ⟨id, currentEq, isScope⟩ :=
        ScopeTable.exists_id_of_rel (innermost ▸ follows.current)
      exact ⟨id, block, currentEq, innermost, isScope⟩
  | hoisted =>
      have sameNearest : block.selfAndAncestors.find? Cursor.makesVarScope = some varBlock := by
        cases makes : cursor.makesScope with
        | true =>
            rw [Cursor.selfAndAncestors, List.find?_cons, makes] at innermost
            obtain rfl := Option.some.inj innermost
            exact nearest
        | false =>
            have makesNoVar : ¬ cursor.makesVarScope = true := fun holdsVar => by
              simp [Cursor.makesScope_of_makesVarScope holdsVar] at makes
            rw [Cursor.selfAndAncestors, List.find?_cons_of_neg (by simp [makes])] at innermost
            rw [Cursor.selfAndAncestors, List.find?_cons_of_neg makesNoVar,
              Cursor.find?_makesVarScope_ancestors innermost] at nearest
            exact nearest
      obtain ⟨id, variableEq, isScope⟩ :=
        follows.exists_currentVariableScope? innermost sameNearest
      exact ⟨id, varBlock, variableEq, nearest, isScope⟩

/-- Entering a node of a program records its sites. -/
theorem Records.enter {builder : ScopeBuilder} {source : Source}
    {sites : List (Option Cursor × Definition)} {entered : List Cursor} {tree : Node}
    {cursor : Cursor} (records : builder.Records source sites)
    (follows : builder.bare.Follows entered cursor.ancestors)
    (fresh : cursor.address ∉ entered.map Cursor.address)
    (isProgram : tree.kind = .program) (inTree : cursor ∈ tree.cursors) :
    (builder.enter cursor).Records source (sites ++ cursor.sites source) := by
  have fullFollows := follows_of_bare follows
  rw [enter_eq, Cursor.sites, Cursor.bindings, List.map_append, ← List.append_assoc,
    records.source_eq]
  have outer : (builder.recordAll cursor.outerBindings).Records source (sites ++
      cursor.outerBindings.map fun binding =>
        (binding.place.block? cursor, binding.definition)) := by
    apply records.recordAll
    intro binding member
    obtain ⟨isOutside, notProgram⟩ := place_of_mem_outerBindings member
    have notRoot : cursor ≠ Cursor.root tree := by
      rintro rfl
      exact notProgram isProgram
    obtain ⟨block, ancestorFound⟩ :=
      Cursor.exists_find?_makesScope_ancestors isProgram inTree notRoot
    obtain ⟨id, currentEq, isScope⟩ :=
      ScopeTable.exists_id_of_rel (ancestorFound ▸ fullFollows.current)
    rw [isOutside]
    exact ⟨id, block, currentEq, ancestorFound, isScope⟩
  have openedFollows :
      ((builder.recordAll cursor.outerBindings).openFor cursor).Follows (entered ++ [cursor])
        cursor.selfAndAncestors := by
    apply follows_of_bare
    rw [bare_openFor, bare_recordAll]
    exact follows.openFor fresh
  apply (outer.openFor cursor).recordAll
  intro binding member
  exact openedFollows.exists_scopeFor? isProgram inTree (place_of_mem_innerBindings member)

end ScopeBuilder

namespace ScopeBuilder

theorem walkInvariant_records (source : Source) {tree : Node}
    (isProgram : tree.kind = .program) :
    tree.WalkInvariant step fun (builder : ScopeBuilder) entered opened =>
      builder.bare.Follows entered opened ∧
        builder.Records source (entered.flatMap (·.sites source)) := by
  constructor
  case enter =>
    intro builder entered cursor inTree fresh ⟨follows, records⟩
    refine ⟨bare_follows_enter follows fresh, ?_⟩
    rw [List.flatMap_append, List.flatMap_singleton]
    exact records.enter follows fresh isProgram inTree
  case leave =>
    intro builder entered cursor _ ⟨follows, records⟩
    exact ⟨bare_follows_close follows,
      ⟨records.source_eq, records.filed, records.made, records.placed⟩⟩

/-- A walk over a program records the sites of all its nodes. -/
theorem records_walk (source : Source) {tree : Node} (isProgram : tree.kind = .program) :
    (tree.walk.foldl step (start source)).Records source
      (tree.cursors.flatMap (·.sites source)) := by
  have follows : (start source).bare.Follows [] [] := follows_start source
  have nothingYet : (start source).Records source [] :=
    ⟨rfl, ScopeTable.isFiled_start source, rfl, by simp⟩
  exact ((walkInvariant_records source isProgram).foldl_walk ⟨follows, nothingYet⟩).2

end ScopeBuilder

end AssertLint
