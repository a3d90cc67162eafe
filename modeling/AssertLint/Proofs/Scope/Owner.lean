import AssertLint.Proofs.Scope.Sites
import Mathlib.Data.List.Nodup

/-!
# Every name is bound once

The node that introduces a definition can be found from the name: it is the
nearest node above of a kind that introduces definitions.  Within one node the
names stand below different children or in different places of one pattern.  So
no two definitions of a tree have the same name node.
-/

namespace AssertLint

/-- The kinds of nodes that introduce definitions. -/
def Kind.introduces : Kind → Bool
  | variableDeclaration | lexicalDeclaration | forInStatement | catchClause
  | importStatement | classDeclaration | classExpression => true
  | kind => kind.isFunction

namespace Cursor

/-- A node is reached from another one without passing a node in between that
introduces definitions. -/
inductive Owns (node : Cursor) : Cursor → Prop where
  | child {child : Cursor} (isChild : child ∈ node.children) : Owns node child
  | step {middle child : Cursor} (owns : Owns node middle)
      (passes : middle.kind.introduces = false) (isChild : child ∈ middle.children) :
      Owns node child

theorem Owns.liesIn {tree : Node} {node name : Cursor} (owns : node.Owns name)
    (lies : LiesIn tree node) : LiesIn tree name := by
  induction owns with
  | child isChild => exact lies.of_mem_children isChild
  | step _ _ isChild ih => exact ih.of_mem_children isChild

theorem Owns.find?_ancestors {node name : Cursor} (owns : node.Owns name)
    (introduces : node.kind.introduces = true) :
    name.ancestors.find? (·.kind.introduces) = some node := by
  induction owns with
  | child isChild =>
      rw [ancestors_of_mem_children isChild]
      exact List.find?_cons_of_pos introduces
  | step _ passes isChild ih =>
      rw [ancestors_of_mem_children isChild, List.find?_cons_of_neg (by simp [passes]), ih]

private theorem introduces_of_patternPart? {kind : Kind}
    (isPattern : kind.patternPart?.isSome = true) : kind.introduces = false := by
  cases kind <;> simp [Kind.patternPart?] at isPattern <;> rfl

theorem Owns.binds {node pattern name : Cursor} (owns : node.Owns pattern)
    (binds : pattern.Binds name) : node.Owns name := by
  refine binds.upward (motive := fun pattern name => node.Owns pattern → node.Owns name)
    (fun name owns => owns) ?_ owns
  intro pattern child name isPattern isChild ih owns
  exact ih (Owns.step owns (introduces_of_patternPart? isPattern) isChild)

private theorem owns_import {node clause child : Cursor}
    (hasClause : node.contentChildren.find? (·.kind = .importClause) = some clause)
    (imports : child ∈ clause.contentChildren) : node.Owns child := by
  have isClause : clause.kind = .importClause := by simpa using List.find?_some hasClause
  have ownsClause : node.Owns clause :=
    Owns.child (mem_children_of_mem_contentChildren (List.mem_of_find?_eq_some hasClause))
  exact ownsClause.step (by rw [isClause]; rfl) (mem_children_of_mem_contentChildren imports)

private theorem introduces_of_isFunction {kind : Kind} (isFunction : kind.isFunction = true) :
    kind.introduces = true := by
  cases kind <;> first | rfl | simp [Kind.isFunction] at isFunction

/-- A node owns the names that it introduces. -/
theorem Introduces.owns {source : Source} {node : Cursor} {block? : Option Cursor}
    {definition : Definition} (introduces : node.Introduces Binds source block? definition) :
    node.kind.introduces = true ∧ node.Owns definition.name := by
  cases introduces with
  | varDeclarator isKind declares isDeclarator hasPattern binds
  | lexicalDeclarator isKind declares isDeclarator hasPattern binds =>
      have owns := Owns.child (mem_children_of_mem_contentChildren declares)
      have ownsPattern :=
        owns.step (by rw [isDeclarator]; rfl) (mem_children_of_field? hasPattern)
      exact ⟨by rw [isKind]; rfl, ownsPattern.binds binds⟩
  | loopVar isLoop hasKeyword isVar hasPattern binds
  | loopLexical isLoop hasKeyword isVar hasPattern binds =>
      have owns := Owns.child (mem_children_of_field? hasPattern)
      exact ⟨by rw [isLoop]; rfl, owns.binds binds⟩
  | soleParameter isFunction hasParameter binds =>
      have owns := Owns.child (mem_children_of_field? hasParameter)
      exact ⟨introduces_of_isFunction isFunction, owns.binds binds⟩
  | listedParameter isFunction hasParameters isList listed binds =>
      have owns := Owns.child (mem_children_of_field? hasParameters)
      have ownsParameter :=
        owns.step (by rw [isList]; rfl) (mem_children_of_mem_contentChildren listed)
      exact ⟨introduces_of_isFunction isFunction, ownsParameter.binds binds⟩
  | declaredFunction isDeclaration hasName =>
      refine ⟨?_, Owns.child (mem_children_of_field? hasName)⟩
      rcases isDeclaration with kindEq | kindEq <;> rw [kindEq] <;> rfl
  | functionExpression isExpression hasName =>
      refine ⟨?_, Owns.child (mem_children_of_field? hasName)⟩
      rcases isExpression with kindEq | kindEq | kindEq <;> rw [kindEq] <;> rfl
  | declaredClass isKind hasName | classExpression isKind hasName =>
      exact ⟨by rw [isKind]; rfl, Owns.child (mem_children_of_field? hasName)⟩
  | caught isHandler hasParameter binds =>
      have owns := Owns.child (mem_children_of_field? hasParameter)
      exact ⟨by rw [isHandler]; rfl, owns.binds binds⟩
  | defaultImport isImport hasClause imports isName =>
      exact ⟨by rw [isImport]; rfl, owns_import hasClause imports⟩
  | namespaceImport isImport hasClause imports isSpace hasName =>
      have owns := owns_import hasClause imports
      have nameMem := mem_children_of_mem_contentChildren (List.mem_of_find?_eq_some hasName)
      exact ⟨by rw [isImport]; rfl, owns.step (by rw [isSpace]; rfl) nameMem⟩
  | namedImport isImport hasClause imports isList listed isSpecifier isLocal isName =>
      have owns := owns_import hasClause imports
      have ownsSpecifier :=
        owns.step (by rw [isList]; rfl) (mem_children_of_mem_contentChildren listed)
      refine ⟨by rw [isImport]; rfl, ownsSpecifier.step (by rw [isSpecifier]; rfl) ?_⟩
      rcases isLocal with hasAlias | ⟨-, hasName⟩
      · exact mem_children_of_field? hasAlias
      · exact mem_children_of_field? hasName

/-- Definitions of a tree with one name node are introduced by one node. -/
theorem Introduces.node_eq {source : Source} {tree : Node} {node node' : Cursor}
    {block? block?' : Option Cursor} {definition definition' : Definition}
    (introduces : node.Introduces Binds source block? definition)
    (introduces' : node'.Introduces Binds source block?' definition')
    (inTree : node ∈ tree.cursors) (inTree' : node' ∈ tree.cursors)
    (same : definition.name.address = definition'.name.address) : node = node' := by
  obtain ⟨isIntroducer, owns⟩ := introduces.owns
  obtain ⟨isIntroducer', owns'⟩ := introduces'.owns
  have nameEq : definition.name = definition'.name :=
    (owns.liesIn (mem_cursors_iff.mp inTree)).eq_of_address_eq
      (owns'.liesIn (mem_cursors_iff.mp inTree')) same
  have found := owns.find?_ancestors isIntroducer
  rw [nameEq, owns'.find?_ancestors isIntroducer'] at found
  exact (Option.some.inj found).symm

/-! ## The names of one node -/

/-- Names below different children of a node are different. -/
theorem nodup_flatMap_contentChildren {node : Cursor} {namesOf : Cursor → List Cursor}
    (below : ∀ child ∈ node.contentChildren, ∀ name ∈ namesOf child,
      child ∈ name.selfAndAncestors)
    (each : ∀ child ∈ node.contentChildren, ((namesOf child).map address).Nodup) :
    ((node.contentChildren.flatMap namesOf).map address).Nodup := by
  have sublist : node.contentChildren.Sublist node.children :=
    List.filter_sublist.trans List.filter_sublist
  have distinct : node.contentChildren.Nodup :=
    ((nodup_address_children node).sublist (sublist.map address)).of_map
  rw [List.map_flatMap, List.nodup_flatMap]
  refine ⟨each, distinct.pairwise_of_forall_ne ?_⟩
  intro child childMem child' childMem' differ place placeMem placeMem'
  obtain ⟨name, nameMem, rfl⟩ := List.mem_map.mp placeMem
  obtain ⟨name', nameMem', same⟩ := List.mem_map.mp placeMem'
  exact differ (child_eq_of_mem_selfAndAncestors
    (mem_children_of_mem_contentChildren childMem) (mem_children_of_mem_contentChildren childMem')
    (below child childMem name nameMem) (below child' childMem' name' nameMem') same.symm)

theorem nodup_address_boundNames (pattern : Cursor) :
    (pattern.boundNames.map address).Nodup :=
  (nodup_address_preorder pattern).sublist (pattern.boundNames_sublist_preorder.map address)

/-- A name stands at or below the child in a field. -/
def IsInField (node : Cursor) (field : Field) (name : Cursor) : Prop :=
  ∃ child, node.field? field = some child ∧ child ∈ name.selfAndAncestors

theorem IsInField.address_ne {node name name' : Cursor} {field field' : Field}
    (inField : node.IsInField field name) (inField' : node.IsInField field' name')
    (differ : field ≠ field') : name.address ≠ name'.address := by
  obtain ⟨child, found, below⟩ := inField
  obtain ⟨child', found', below'⟩ := inField'
  intro same
  have childEq := child_eq_of_mem_selfAndAncestors (mem_children_of_field? found)
    (mem_children_of_field? found') below below' same
  have fieldEq := (field_eq_of_field? found).symm.trans (childEq ▸ field_eq_of_field? found')
  exact differ (Option.some.inj fieldEq)

theorem isInField_of_mem_boundNames {node pattern name : Cursor} {field : Field}
    (found : node.field? field = some pattern) (bound : name ∈ pattern.boundNames) :
    node.IsInField field name :=
  ⟨pattern, found, (mem_boundNames_iff.mp bound).mem_selfAndAncestors⟩

/-- The parameters in parentheses. -/
private def listedParameters (node : Cursor) : List Cursor :=
  match node.field? .parameters with
  | some parameters =>
      if parameters.kind = .formalParameters then parameters.contentChildren else []
  | none => []

private theorem isInField_of_mem_listedParameters {node name : Cursor}
    (member : name ∈ node.listedParameters.flatMap boundNames) :
    node.IsInField .parameters name := by
  obtain ⟨parameter, parameterMem, bound⟩ := List.mem_flatMap.mp member
  unfold listedParameters at parameterMem
  split at parameterMem
  next parameters found =>
    split at parameterMem
    next =>
      exact ⟨parameters, found, mem_selfAndAncestors_of_child
        (mem_children_of_mem_contentChildren parameterMem)
        (mem_boundNames_iff.mp bound).mem_selfAndAncestors⟩
    next => simp at parameterMem
  next => simp at parameterMem

private theorem nodup_listedParameters (node : Cursor) :
    ((node.listedParameters.flatMap boundNames).map address).Nodup := by
  unfold listedParameters
  split
  next parameters found =>
    split
    next =>
      exact nodup_flatMap_contentChildren
        (fun _ _ _ bound => (mem_boundNames_iff.mp bound).mem_selfAndAncestors)
        (fun parameter _ => nodup_address_boundNames parameter)
    next => exact List.nodup_nil
  next => exact List.nodup_nil

private theorem isInField_of_mem_toList {node name : Cursor} {field : Field}
    (member : name ∈ (node.field? field).toList.flatMap boundNames) :
    node.IsInField field name := by
  obtain ⟨pattern, found, bound⟩ := List.mem_flatMap.mp member
  exact isInField_of_mem_boundNames (Option.mem_toList.mp found) bound

private theorem nodup_toList (node : Cursor) (field : Field) :
    (((node.field? field).toList.flatMap boundNames).map address).Nodup := by
  cases node.field? field with
  | none => exact List.nodup_nil
  | some pattern =>
      rw [Option.toList_some, List.flatMap_singleton]
      exact nodup_address_boundNames pattern

/-- Names in different fields of a node are different. -/
private theorem nodup_append_of_fields (node : Cursor) {names names' : List Cursor}
    (distinct : (names.map address).Nodup) (distinct' : (names'.map address).Nodup)
    (apart : ∀ name ∈ names, ∀ name' ∈ names', ∃ field field', field ≠ field' ∧
      node.IsInField field name ∧ node.IsInField field' name') :
    ((names ++ names').map address).Nodup := by
  rw [List.map_append, List.nodup_append]
  refine ⟨distinct, distinct', ?_⟩
  intro place placeMem place' placeMem'
  obtain ⟨name, nameMem, rfl⟩ := List.mem_map.mp placeMem
  obtain ⟨name', nameMem', rfl⟩ := List.mem_map.mp placeMem'
  obtain ⟨field, field', differ, inField, inField'⟩ := apart name nameMem name' nameMem'
  exact inField.address_ne inField' differ

private theorem nodup_parameters (node : Cursor) :
    (((ScopeBuilder.parametersOf node).flatMap boundNames).map address).Nodup := by
  change ((((node.field? .parameter).toList ++ node.listedParameters).flatMap
    boundNames).map address).Nodup
  rw [List.flatMap_append]
  refine nodup_append_of_fields node (nodup_toList node .parameter) (nodup_listedParameters node) ?_
  intro name nameMem name' nameMem'
  exact ⟨.parameter, .parameters, by decide, isInField_of_mem_toList nameMem,
    isInField_of_mem_listedParameters nameMem'⟩

private theorem nodup_ownName_parameters (node : Cursor) :
    (((node.field? .name).toList ++
      (ScopeBuilder.parametersOf node).flatMap boundNames).map address).Nodup := by
  refine nodup_append_of_fields node ?_ (nodup_parameters node) ?_
  · cases node.field? .name with
    | none => exact List.nodup_nil
    | some name => simp
  · intro name nameMem name' nameMem'
    have own : node.IsInField .name name :=
      ⟨name, Option.mem_toList.mp nameMem, List.mem_cons_self⟩
    change name' ∈ ((node.field? .parameter).toList ++ node.listedParameters).flatMap
      boundNames at nameMem'
    rw [List.flatMap_append, List.mem_append] at nameMem'
    rcases nameMem' with sole | listed
    · exact ⟨.name, .parameter, by decide, own, isInField_of_mem_toList sole⟩
    · exact ⟨.name, .parameters, by decide, own, isInField_of_mem_listedParameters listed⟩

private theorem nodup_declarators (node : Cursor) :
    ((node.contentChildren.flatMap fun declarator =>
      if declarator.kind = .variableDeclarator then
        (declarator.field? .name).toList.flatMap boundNames
      else []).map address).Nodup := by
  apply nodup_flatMap_contentChildren
  · intro declarator _ name member
    split at member
    next =>
      obtain ⟨pattern, found, below⟩ := isInField_of_mem_toList member
      exact mem_selfAndAncestors_of_child (mem_children_of_field? found) below
    next => simp at member
  · intro declarator _
    split
    next => exact nodup_toList declarator .name
    next => exact List.nodup_nil

private theorem mem_selfAndAncestors_of_localName? {specifier name : Cursor}
    (isLocal : ScopeBuilder.localName? specifier = some name) :
    specifier ∈ name.selfAndAncestors := by
  have isChild : name ∈ specifier.children := by
    rcases (localName?_eq_some_iff.mp isLocal).1 with hasAlias | ⟨-, hasName⟩
    · exact mem_children_of_field? hasAlias
    · exact mem_children_of_field? hasName
  exact mem_selfAndAncestors_of_child isChild List.mem_cons_self

private theorem nodup_namedImports (list : Cursor) :
    (((list.contentChildren.filterMap fun specifier =>
      if specifier.kind = .importSpecifier then
        (ScopeBuilder.localName? specifier).map (·, specifier)
      else none).map Prod.fst).map address).Nodup := by
  have namesEq : (list.contentChildren.filterMap fun specifier =>
      if specifier.kind = .importSpecifier then
        (ScopeBuilder.localName? specifier).map (·, specifier)
      else none).map Prod.fst =
      list.contentChildren.flatMap fun specifier =>
        if specifier.kind = .importSpecifier then (ScopeBuilder.localName? specifier).toList
        else [] := by
    rw [List.map_filterMap, List.filterMap_eq_flatMap_toList]
    congr 1
    funext specifier
    by_cases isSpecifier : specifier.kind = .importSpecifier
    · cases ScopeBuilder.localName? specifier <;> simp [isSpecifier]
    · simp [isSpecifier]
  rw [namesEq]
  apply nodup_flatMap_contentChildren
  · intro specifier _ name member
    split at member
    next => exact mem_selfAndAncestors_of_localName? (Option.mem_toList.mp member)
    next => simp at member
  · intro specifier _
    split
    next => cases ScopeBuilder.localName? specifier <;> simp
    next => exact List.nodup_nil

private theorem nodup_importedNames (clause : Cursor) :
    (((ScopeBuilder.importedNames clause).map Prod.fst).map address).Nodup := by
  rw [ScopeBuilder.importedNames, List.map_flatMap]
  apply nodup_flatMap_contentChildren
  · intro child _ name member
    obtain ⟨⟨name, definer⟩, entryMem, rfl⟩ := List.mem_map.mp member
    split at entryMem
    next =>
      obtain ⟨rfl, -⟩ : name = child ∧ definer = child := by simpa using entryMem
      exact List.mem_cons_self
    next =>
      obtain ⟨found, -⟩ : child.contentChildren.find? (·.kind = .identifier) = some name ∧
          child = definer := by
        simpa using entryMem
      exact mem_selfAndAncestors_of_child
        (mem_children_of_mem_contentChildren (List.mem_of_find?_eq_some found)) List.mem_cons_self
    next =>
      obtain ⟨specifier, specifierMem, made⟩ := List.mem_filterMap.mp entryMem
      split at made
      next =>
        obtain ⟨isLocal, -⟩ :
            ScopeBuilder.localName? specifier = some name ∧ specifier = definer := by
          simpa using made
        exact mem_selfAndAncestors_of_child (mem_children_of_mem_contentChildren specifierMem)
          (mem_selfAndAncestors_of_localName? isLocal)
      next => simp at made
    next => simp at entryMem
  · intro child _
    split
    next => simp
    next => cases child.contentChildren.find? (·.kind = .identifier) <;> simp
    next => exact nodup_namedImports child
    next => exact List.nodup_nil

private theorem names_patternBindings (place : Place) (type : BindingType)
    (pattern node : Cursor) (parent : Option Cursor) :
    (patternBindings place type pattern node parent).map (·.definition.name) =
      pattern.boundNames := by
  simp [patternBindings, Function.comp_def]

private theorem names_ownNameBindings (place : Place) (type : BindingType) (node : Cursor) :
    (node.ownNameBindings place type).map (·.definition.name) = (node.field? .name).toList := by
  simp [ownNameBindings, Function.comp_def]

private theorem names_parameterBindings (node : Cursor) :
    node.parameterBindings.map (·.definition.name) =
      (ScopeBuilder.parametersOf node).flatMap boundNames := by
  simp only [parameterBindings, List.map_flatMap, names_patternBindings]

private theorem names_variableBindings (place : Place) (node : Cursor) :
    (node.variableBindings place).map (·.definition.name) =
      node.contentChildren.flatMap fun declarator =>
        if declarator.kind = .variableDeclarator then
          (declarator.field? .name).toList.flatMap boundNames
        else [] := by
  rw [variableBindings, List.map_flatMap]
  congr 1
  funext declarator
  by_cases isDeclarator : declarator.kind = .variableDeclarator
  · rw [if_pos isDeclarator, if_pos isDeclarator, List.map_flatMap]
    simp only [names_patternBindings]
  · rw [if_neg isDeclarator, if_neg isDeclarator]
    rfl

private theorem nodup_ownName (node : Cursor) :
    ((node.field? .name).toList.map address).Nodup := by
  cases node.field? .name <;> simp

private theorem nodup_loopBindings (source : Source) (node : Cursor) :
    (((node.loopBindings source).map (·.definition.name)).map address).Nodup := by
  unfold loopBindings
  split
  next => rw [names_patternBindings]; exact nodup_address_boundNames _
  next => exact List.nodup_nil

private theorem nodup_importBindings (node : Cursor) :
    ((node.importBindings.map (·.definition.name)).map address).Nodup := by
  unfold importBindings
  cases node.contentChildren.find? (·.kind = .importClause) with
  | none => exact List.nodup_nil
  | some clause => simpa [Function.comp_def] using nodup_importedNames clause

private theorem nodup_innerBindings (source : Source) (node : Cursor) :
    (((node.innerBindings source).map (·.definition.name)).map address).Nodup := by
  unfold innerBindings
  split
  iterate 3 next =>
    rw [List.map_append, names_ownNameBindings, names_parameterBindings]
    exact nodup_ownName_parameters node
  iterate 4 next =>
    rw [names_parameterBindings]
    exact nodup_parameters node
  next =>
    rw [names_ownNameBindings]
    exact nodup_ownName node
  next => exact nodup_loopBindings source node
  next =>
    simp only [List.map_flatMap, names_patternBindings]
    rw [← List.map_flatMap]
    exact nodup_toList node .parameter
  iterate 2 next =>
    rw [names_variableBindings]
    exact nodup_declarators node
  next => exact nodup_importBindings node
  next => exact List.nodup_nil

/-- A node binds every name once. -/
theorem nodup_sites (source : Source) (node : Cursor) :
    ((node.sites source).map (·.2.name.address)).Nodup := by
  have namesEq : (node.sites source).map (·.2.name.address) =
      ((node.bindings source).map (·.definition.name)).map address := by
    simp [sites, Function.comp_def]
  rw [namesEq, bindings]
  unfold outerBindings
  split
  iterate 2 next isDeclaration =>
    simp only [innerBindings, isDeclaration]
    rw [List.map_append, names_ownNameBindings, names_parameterBindings]
    exact nodup_ownName_parameters node
  next isDeclaration =>
    simp only [innerBindings, isDeclaration, List.append_nil]
    rw [names_ownNameBindings]
    exact nodup_ownName node
  next => exact nodup_innerBindings source node

/-- The nodes of a tree bind every name once. -/
theorem nodup_flatMap_sites (source : Source) (tree : Node) :
    ((tree.cursors.flatMap (·.sites source)).map (·.2.name.address)).Nodup := by
  have distinct : tree.cursors.Nodup := (nodup_address_cursors tree).of_map
  rw [List.map_flatMap, List.nodup_flatMap]
  refine ⟨fun node _ => nodup_sites source node, distinct.pairwise_of_forall_ne ?_⟩
  intro node inTree node' inTree' differ place placeMem placeMem'
  obtain ⟨⟨block?, definition⟩, siteMem, rfl⟩ := List.mem_map.mp placeMem
  obtain ⟨⟨block?', definition'⟩, siteMem', same⟩ := List.mem_map.mp placeMem'
  exact differ ((mem_sites_iff.mp siteMem).node_eq (mem_sites_iff.mp siteMem') inTree inTree'
    same.symm)

end Cursor

end AssertLint
