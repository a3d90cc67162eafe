import AssertLint.Proofs.Scope.BoundNames
import AssertLint.Proofs.Scope.Entries

/-!
# Binding sites

A dozen constructs define names.  This file says for each of them which names it
defines and to the scope of which node they belong, and shows that these are the
definitions that are recorded when nodes are entered.
-/

namespace AssertLint

namespace Cursor

/-- A node introduces a definition that belongs to the scope of a block, for a notion of
the names that are bound by a pattern. -/
inductive Introduces (bound : Cursor → Cursor → Prop) (source : Source) (node : Cursor) :
    Option Cursor → Definition → Prop where
  | varDeclarator {declarator pattern name : Cursor} (isVar : node.kind = .variableDeclaration)
      (declares : declarator ∈ node.contentChildren)
      (isDeclarator : declarator.kind = .variableDeclarator)
      (hasPattern : declarator.field? .name = some pattern) (binds : bound pattern name) :
      Introduces bound source node (node.ancestors.find? makesVarScope)
        ⟨.declaredVariable, name, declarator, some node⟩
  | lexicalDeclarator {declarator pattern name : Cursor}
      (isLexical : node.kind = .lexicalDeclaration)
      (declares : declarator ∈ node.contentChildren)
      (isDeclarator : declarator.kind = .variableDeclarator)
      (hasPattern : declarator.field? .name = some pattern) (binds : bound pattern name) :
      Introduces bound source node (node.ancestors.find? makesScope)
        ⟨.declaredVariable, name, declarator, some node⟩
  | loopVar {keyword pattern name : Cursor} (isLoop : node.kind = .forInStatement)
      (hasKeyword : node.field? .keyword = some keyword) (isVar : keyword.text source = "var")
      (hasPattern : node.field? .left = some pattern) (binds : bound pattern name) :
      Introduces bound source node (node.ancestors.find? makesVarScope)
        ⟨.declaredVariable, name, node, none⟩
  | loopLexical {keyword pattern name : Cursor} (isLoop : node.kind = .forInStatement)
      (hasKeyword : node.field? .keyword = some keyword) (notVar : keyword.text source ≠ "var")
      (hasPattern : node.field? .left = some pattern) (binds : bound pattern name) :
      Introduces bound source node (some node) ⟨.declaredVariable, name, node, none⟩
  | soleParameter {parameter name : Cursor} (isFunction : node.kind.isFunction = true)
      (hasParameter : node.field? .parameter = some parameter) (binds : bound parameter name) :
      Introduces bound source node (some node) ⟨.parameter, name, parameter, none⟩
  | listedParameter {parameters parameter name : Cursor}
      (isFunction : node.kind.isFunction = true)
      (hasParameters : node.field? .parameters = some parameters)
      (isList : parameters.kind = .formalParameters)
      (listed : parameter ∈ parameters.contentChildren) (binds : bound parameter name) :
      Introduces bound source node (some node) ⟨.parameter, name, parameter, none⟩
  | declaredFunction {name : Cursor} (isDeclaration : node.kind = .functionDeclaration ∨
      node.kind = .generatorFunctionDeclaration) (hasName : node.field? .name = some name) :
      Introduces bound source node (node.ancestors.find? makesScope)
        ⟨.functionName, name, node, none⟩
  | functionExpression {name : Cursor} (isExpression : node.kind = .functionLiteral ∨
      node.kind = .functionExpression ∨ node.kind = .generatorFunction)
      (hasName : node.field? .name = some name) :
      Introduces bound source node (some node) ⟨.functionName, name, node, none⟩
  | declaredClass {name : Cursor} (isDeclaration : node.kind = .classDeclaration)
      (hasName : node.field? .name = some name) :
      Introduces bound source node (node.ancestors.find? makesScope) ⟨.className, name, node, none⟩
  | classExpression {name : Cursor} (isExpression : node.kind = .classExpression)
      (hasName : node.field? .name = some name) :
      Introduces bound source node (some node) ⟨.className, name, node, none⟩
  | caught {parameter name : Cursor} (isHandler : node.kind = .catchClause)
      (hasParameter : node.field? .parameter = some parameter) (binds : bound parameter name) :
      Introduces bound source node (some node) ⟨.caughtException, name, node, none⟩
  | defaultImport {clause name : Cursor} (isImport : node.kind = .importStatement)
      (hasClause : node.contentChildren.find? (·.kind = .importClause) = some clause)
      (imports : name ∈ clause.contentChildren) (isName : name.kind = .identifier) :
      Introduces bound source node (node.ancestors.find? makesScope)
        ⟨.importedName, name, name, some node⟩
  | namespaceImport {clause space name : Cursor} (isImport : node.kind = .importStatement)
      (hasClause : node.contentChildren.find? (·.kind = .importClause) = some clause)
      (imports : space ∈ clause.contentChildren) (isSpace : space.kind = .namespaceImport)
      (hasName : space.contentChildren.find? (·.kind = .identifier) = some name) :
      Introduces bound source node (node.ancestors.find? makesScope)
        ⟨.importedName, name, space, some node⟩
  | namedImport {clause list specifier name : Cursor} (isImport : node.kind = .importStatement)
      (hasClause : node.contentChildren.find? (·.kind = .importClause) = some clause)
      (imports : list ∈ clause.contentChildren) (isList : list.kind = .namedImports)
      (listed : specifier ∈ list.contentChildren)
      (isSpecifier : specifier.kind = .importSpecifier)
      (isLocal : specifier.field? .otherName = some name ∨
        specifier.field? .otherName = none ∧ specifier.field? .name = some name)
      (isName : name.kind = .identifier) :
      Introduces bound source node (node.ancestors.find? makesScope)
        ⟨.importedName, name, specifier, some node⟩

/-- What is introduced for one notion of bound names is introduced for a weaker one. -/
theorem Introduces.imp {bound weaker : Cursor → Cursor → Prop} {source : Source} {tree : Node}
    {node : Cursor} {block? : Option Cursor} {definition : Definition}
    (introduces : node.Introduces bound source block? definition) (lies : LiesIn tree node)
    (isWeaker : ∀ pattern, LiesIn tree pattern → bound pattern definition.name →
      weaker pattern definition.name) :
    node.Introduces weaker source block? definition := by
  have content {cursor child : Cursor} (above : LiesIn tree cursor)
      (member : child ∈ cursor.contentChildren) : LiesIn tree child :=
    above.of_mem_children (mem_children_of_mem_contentChildren member)
  cases introduces with
  | varDeclarator isVar declares isDeclarator hasPattern binds =>
      exact .varDeclarator isVar declares isDeclarator hasPattern
        (isWeaker _ ((content lies declares).of_field? hasPattern) binds)
  | lexicalDeclarator isLexical declares isDeclarator hasPattern binds =>
      exact .lexicalDeclarator isLexical declares isDeclarator hasPattern
        (isWeaker _ ((content lies declares).of_field? hasPattern) binds)
  | loopVar isLoop hasKeyword isVar hasPattern binds =>
      exact .loopVar isLoop hasKeyword isVar hasPattern
        (isWeaker _ (lies.of_field? hasPattern) binds)
  | loopLexical isLoop hasKeyword notVar hasPattern binds =>
      exact .loopLexical isLoop hasKeyword notVar hasPattern
        (isWeaker _ (lies.of_field? hasPattern) binds)
  | soleParameter isFunction hasParameter binds =>
      exact .soleParameter isFunction hasParameter
        (isWeaker _ (lies.of_field? hasParameter) binds)
  | listedParameter isFunction hasParameters isList listed binds =>
      exact .listedParameter isFunction hasParameters isList listed
        (isWeaker _ (content (lies.of_field? hasParameters) listed) binds)
  | caught isHandler hasParameter binds =>
      exact .caught isHandler hasParameter (isWeaker _ (lies.of_field? hasParameter) binds)
  | declaredFunction isDeclaration hasName => exact .declaredFunction isDeclaration hasName
  | functionExpression isExpression hasName => exact .functionExpression isExpression hasName
  | declaredClass isDeclaration hasName => exact .declaredClass isDeclaration hasName
  | classExpression isExpression hasName => exact .classExpression isExpression hasName
  | defaultImport isImport hasClause imports isName =>
      exact .defaultImport isImport hasClause imports isName
  | namespaceImport isImport hasClause imports isSpace hasName =>
      exact .namespaceImport isImport hasClause imports isSpace hasName
  | namedImport isImport hasClause imports isList listed isSpecifier isLocal isName =>
      exact .namedImport isImport hasClause imports isList listed isSpecifier isLocal isName

/-! ## The recorded sites -/

section Blocks

variable {node : Cursor}

theorem block?_inside_of_makesScope (makes : node.makesScope = true) :
    Place.inside.block? node = some node :=
  List.find?_cons_of_pos makes

theorem block?_inside_of_not_makesScope (makes : node.makesScope = false) :
    Place.inside.block? node = node.ancestors.find? makesScope :=
  List.find?_cons_of_neg (by simp [makes])

theorem block?_hoisted_of_not_makesVarScope (makes : node.makesVarScope = false) :
    Place.hoisted.block? node = node.ancestors.find? makesVarScope :=
  List.find?_cons_of_neg (by simp [makes])

theorem makesScope_of_isFunction (isFunction : node.kind.isFunction = true) :
    node.makesScope = true := by
  unfold Kind.isFunction at isFunction
  split at isFunction
  all_goals first
    | (rename_i kindEq; simp [makesScope, scopeType?, kindEq]; done)
    | simp at isFunction

end Blocks

theorem mem_patternBindings_iff {place : Place} {type : BindingType} {pattern node : Cursor}
    {parent : Option Cursor} {binding : Binding} :
    binding ∈ patternBindings place type pattern node parent ↔
      ∃ name, pattern.Binds name ∧ ⟨place, ⟨type, name, node, parent⟩⟩ = binding := by
  simp [patternBindings, mem_boundNames_iff]

theorem mem_ownNameBindings_iff {place : Place} {type : BindingType} {node : Cursor}
    {binding : Binding} :
    binding ∈ node.ownNameBindings place type ↔
      ∃ name, node.field? .name = some name ∧ ⟨place, ⟨type, name, node, none⟩⟩ = binding := by
  simp [ownNameBindings]

theorem mem_parametersOf_iff {node parameter : Cursor} :
    parameter ∈ ScopeBuilder.parametersOf node ↔
      node.field? .parameter = some parameter ∨
        ∃ parameters, node.field? .parameters = some parameters ∧
          parameters.kind = .formalParameters ∧ parameter ∈ parameters.contentChildren := by
  unfold ScopeBuilder.parametersOf
  rw [List.mem_append, Option.mem_toList]
  cases node.field? .parameters with
  | none => simp
  | some parameters => by_cases isList : parameters.kind = .formalParameters <;> simp [isList]

theorem mem_parameterBindings_iff {node : Cursor} {binding : Binding} :
    binding ∈ node.parameterBindings ↔
      ∃ parameter ∈ ScopeBuilder.parametersOf node, ∃ name, parameter.Binds name ∧
        ⟨.inside, ⟨.parameter, name, parameter, none⟩⟩ = binding := by
  simp [parameterBindings, mem_patternBindings_iff]

theorem mem_variableBindings_iff {place : Place} {node : Cursor} {binding : Binding} :
    binding ∈ node.variableBindings place ↔
      ∃ declarator ∈ node.contentChildren, declarator.kind = .variableDeclarator ∧
        ∃ pattern, declarator.field? .name = some pattern ∧ ∃ name, pattern.Binds name ∧
          ⟨place, ⟨.declaredVariable, name, declarator, some node⟩⟩ = binding := by
  rw [variableBindings, List.mem_flatMap]
  apply exists_congr
  intro declarator
  by_cases isDeclarator : declarator.kind = .variableDeclarator <;>
    simp [isDeclarator, mem_patternBindings_iff]

theorem mem_loopBindings_iff {source : Source} {node : Cursor} {binding : Binding} :
    binding ∈ node.loopBindings source ↔
      ∃ keyword, node.field? .keyword = some keyword ∧
        ∃ pattern, node.field? .left = some pattern ∧ ∃ name, pattern.Binds name ∧
          ⟨if keyword.text source = "var" then .hoisted else .inside,
            ⟨.declaredVariable, name, node, none⟩⟩ = binding := by
  unfold loopBindings
  cases node.field? .keyword with
  | none => simp
  | some keyword =>
      cases node.field? .left with
      | none => simp
      | some pattern => simp [mem_patternBindings_iff]

theorem localName?_eq_some_iff {specifier name : Cursor} :
    ScopeBuilder.localName? specifier = some name ↔
      (specifier.field? .otherName = some name ∨
        specifier.field? .otherName = none ∧ specifier.field? .name = some name) ∧
      name.kind = .identifier := by
  rw [ScopeBuilder.localName?, Option.filter_eq_some_iff, decide_eq_true_iff]
  apply and_congr_left
  intro _
  cases specifier.field? .otherName <;> simp

theorem mem_importedNames_iff {clause name definer : Cursor} :
    (name, definer) ∈ ScopeBuilder.importedNames clause ↔
      (name ∈ clause.contentChildren ∧ name.kind = .identifier ∧ definer = name) ∨
      (definer ∈ clause.contentChildren ∧ definer.kind = .namespaceImport ∧
        definer.contentChildren.find? (·.kind = .identifier) = some name) ∨
      ∃ list ∈ clause.contentChildren, list.kind = .namedImports ∧
        definer ∈ list.contentChildren ∧ definer.kind = .importSpecifier ∧
        ScopeBuilder.localName? definer = some name := by
  rw [ScopeBuilder.importedNames, List.mem_flatMap]
  constructor
  · rintro ⟨child, childMem, member⟩
    split at member
    next isName =>
      obtain ⟨rfl, rfl⟩ : name = child ∧ definer = child := by simpa using member
      exact Or.inl ⟨childMem, isName, rfl⟩
    next isSpace =>
      obtain ⟨found, rfl⟩ :
          child.contentChildren.find? (·.kind = .identifier) = some name ∧ child = definer := by
        simpa using member
      exact Or.inr (Or.inl ⟨childMem, isSpace, found⟩)
    next isList =>
      obtain ⟨specifier, specifierMem, made⟩ := List.mem_filterMap.mp member
      split at made
      next isSpecifier =>
        obtain ⟨found, rfl⟩ :
            ScopeBuilder.localName? specifier = some name ∧ specifier = definer := by
          simpa using made
        exact Or.inr (Or.inr ⟨child, childMem, isList, specifierMem, isSpecifier, found⟩)
      next => simp at made
    next => simp at member
  · rintro (⟨member, isName, rfl⟩ | ⟨member, isSpace, found⟩ |
      ⟨list, member, isList, specifierMem, isSpecifier, found⟩)
    · exact ⟨definer, member, by simp [isName]⟩
    · exact ⟨definer, member, by simp [isSpace, found]⟩
    · refine ⟨list, member, ?_⟩
      simp only [isList]
      exact List.mem_filterMap.mpr ⟨definer, specifierMem, by simp [isSpecifier, found]⟩

theorem mem_importBindings_iff {node : Cursor} {binding : Binding} :
    binding ∈ node.importBindings ↔
      ∃ clause, node.contentChildren.find? (·.kind = .importClause) = some clause ∧
        ∃ name definer, (name, definer) ∈ ScopeBuilder.importedNames clause ∧
          ⟨.inside, ⟨.importedName, name, definer, some node⟩⟩ = binding := by
  simp [importBindings]

private theorem introduces_parameter {source : Source} {node : Cursor} {binding : Binding}
    (isFunction : node.kind.isFunction = true) (member : binding ∈ node.parameterBindings) :
    node.Introduces Binds source (binding.place.block? node) binding.definition := by
  obtain ⟨parameter, parameterMem, name, binds, rfl⟩ := mem_parameterBindings_iff.mp member
  rw [block?_inside_of_makesScope (makesScope_of_isFunction isFunction)]
  rcases mem_parametersOf_iff.mp parameterMem with
    found | ⟨parameters, found, isList, listed⟩
  · exact Introduces.soleParameter isFunction found binds
  · exact Introduces.listedParameter isFunction found isList listed binds

private theorem introduces_import {source : Source} {node : Cursor} {binding : Binding}
    (isImport : node.kind = .importStatement) (member : binding ∈ node.importBindings) :
    node.Introduces Binds source (binding.place.block? node) binding.definition := by
  have makes : node.makesScope = false := by simp [makesScope, scopeType?, isImport]
  obtain ⟨clause, hasClause, name, definer, imported, rfl⟩ := mem_importBindings_iff.mp member
  rw [block?_inside_of_not_makesScope makes]
  rcases mem_importedNames_iff.mp imported with
    ⟨imports, isName, rfl⟩ | ⟨imports, isSpace, hasName⟩ |
      ⟨list, imports, isList, listed, isSpecifier, isLocal⟩
  · exact Introduces.defaultImport isImport hasClause imports isName
  · exact Introduces.namespaceImport isImport hasClause imports isSpace hasName
  · obtain ⟨isLocal, isName⟩ := localName?_eq_some_iff.mp isLocal
    exact Introduces.namedImport isImport hasClause imports isList listed isSpecifier isLocal
      isName

private theorem introduces_of_mem_outerBindings {source : Source} {node : Cursor}
    {binding : Binding} (member : binding ∈ node.outerBindings) :
    node.Introduces Binds source (binding.place.block? node) binding.definition := by
  unfold outerBindings at member
  split at member
  next isDeclaration =>
    obtain ⟨name, hasName, rfl⟩ := mem_ownNameBindings_iff.mp member
    exact Introduces.declaredFunction (Or.inl isDeclaration) hasName
  next isDeclaration =>
    obtain ⟨name, hasName, rfl⟩ := mem_ownNameBindings_iff.mp member
    exact Introduces.declaredFunction (Or.inr isDeclaration) hasName
  next isDeclaration =>
    obtain ⟨name, hasName, rfl⟩ := mem_ownNameBindings_iff.mp member
    exact Introduces.declaredClass isDeclaration hasName
  next => simp at member

private theorem introduces_functionExpression {source : Source} {node : Cursor}
    {binding : Binding} (isExpression : node.kind = .functionLiteral ∨
      node.kind = .functionExpression ∨ node.kind = .generatorFunction)
    (member : binding ∈ node.ownNameBindings .inside .functionName ++ node.parameterBindings) :
    node.Introduces Binds source (binding.place.block? node) binding.definition := by
  have isFunction : node.kind.isFunction = true := by
    rcases isExpression with kindEq | kindEq | kindEq <;> rw [kindEq] <;> rfl
  rcases List.mem_append.mp member with own | parameter
  · obtain ⟨name, hasName, rfl⟩ := mem_ownNameBindings_iff.mp own
    rw [block?_inside_of_makesScope (makesScope_of_isFunction isFunction)]
    exact Introduces.functionExpression isExpression hasName
  · exact introduces_parameter isFunction parameter

private theorem introduces_of_mem_innerBindings {source : Source} {node : Cursor}
    {binding : Binding} (member : binding ∈ node.innerBindings source) :
    node.Introduces Binds source (binding.place.block? node) binding.definition := by
  unfold innerBindings at member
  split at member
  next kindEq => exact introduces_functionExpression (Or.inl kindEq) member
  next kindEq => exact introduces_functionExpression (Or.inr (Or.inl kindEq)) member
  next kindEq => exact introduces_functionExpression (Or.inr (Or.inr kindEq)) member
  iterate 4 next kindEq => exact introduces_parameter (by rw [kindEq]; rfl) member
  next isExpression =>
    obtain ⟨name, hasName, rfl⟩ := mem_ownNameBindings_iff.mp member
    rw [block?_inside_of_makesScope (by simp [makesScope, scopeType?, isExpression])]
    exact Introduces.classExpression isExpression hasName
  next isLoop =>
    obtain ⟨keyword, hasKeyword, pattern, hasPattern, name, binds, rfl⟩ :=
      mem_loopBindings_iff.mp member
    split
    next isVar =>
      rw [block?_hoisted_of_not_makesVarScope
        (by simp [makesVarScope, scopeType?, isLoop, ScopeType.holdsVar])]
      exact Introduces.loopVar isLoop hasKeyword isVar hasPattern binds
    next notVar =>
      rw [block?_inside_of_makesScope (by simp [makesScope, scopeType?, isLoop])]
      exact Introduces.loopLexical isLoop hasKeyword notVar hasPattern binds
  next isHandler =>
    obtain ⟨parameter, hasParameter, bound⟩ := List.mem_flatMap.mp member
    obtain ⟨name, binds, rfl⟩ := mem_patternBindings_iff.mp bound
    rw [block?_inside_of_makesScope (by simp [makesScope, scopeType?, isHandler])]
    exact Introduces.caught isHandler (Option.mem_toList.mp hasParameter) binds
  next isVar =>
    obtain ⟨declarator, declares, isDeclarator, pattern, hasPattern, name, binds, rfl⟩ :=
      mem_variableBindings_iff.mp member
    rw [block?_hoisted_of_not_makesVarScope (by simp [makesVarScope, scopeType?, isVar])]
    exact Introduces.varDeclarator isVar declares isDeclarator hasPattern binds
  next isLexical =>
    obtain ⟨declarator, declares, isDeclarator, pattern, hasPattern, name, binds, rfl⟩ :=
      mem_variableBindings_iff.mp member
    rw [block?_inside_of_not_makesScope (by simp [makesScope, scopeType?, isLexical])]
    exact Introduces.lexicalDeclarator isLexical declares isDeclarator hasPattern binds
  next isImport => exact introduces_import isImport member
  next => simp at member

theorem introduces_of_mem_sites {source : Source} {node : Cursor} {block? : Option Cursor}
    {definition : Definition} (member : (block?, definition) ∈ node.sites source) :
    node.Introduces Binds source block? definition := by
  obtain ⟨binding, bindingMem, siteEq⟩ := List.mem_map.mp member
  obtain ⟨rfl, rfl⟩ := Prod.mk.inj siteEq
  rcases List.mem_append.mp bindingMem with outer | inner
  · exact introduces_of_mem_outerBindings outer
  · exact introduces_of_mem_innerBindings inner

private theorem mem_sites_of_mem_bindings {source : Source} {node : Cursor} {place : Place}
    {block? : Option Cursor} {definition : Definition} (blockEq : place.block? node = block?)
    (member : ⟨place, definition⟩ ∈ node.bindings source) :
    (block?, definition) ∈ node.sites source :=
  List.mem_map.mpr ⟨⟨place, definition⟩, member, by rw [blockEq]⟩

private theorem mem_sites_of_outer {source : Source} {node : Cursor} {definition : Definition}
    (member : ⟨.outside, definition⟩ ∈ node.outerBindings) :
    (node.ancestors.find? makesScope, definition) ∈ node.sites source :=
  mem_sites_of_mem_bindings (show Place.outside.block? node = _ from rfl)
    (List.mem_append_left _ member)

private theorem mem_sites_of_inner {source : Source} {node : Cursor} {place : Place}
    {block? : Option Cursor} {definition : Definition} (blockEq : place.block? node = block?)
    (member : ⟨place, definition⟩ ∈ node.innerBindings source) :
    (block?, definition) ∈ node.sites source :=
  mem_sites_of_mem_bindings blockEq (List.mem_append_right _ member)

private theorem parameterBindings_subset {source : Source} {node : Cursor} {binding : Binding}
    (isFunction : node.kind.isFunction = true) (member : binding ∈ node.parameterBindings) :
    binding ∈ node.innerBindings source := by
  unfold Kind.isFunction at isFunction
  unfold innerBindings
  split at isFunction
  all_goals first
    | (rename_i kindEq; simp [kindEq, member])
    | simp at isFunction

private theorem mem_sites_of_parameter {source : Source} {node parameter name : Cursor}
    (isFunction : node.kind.isFunction = true)
    (isParameter : parameter ∈ ScopeBuilder.parametersOf node) (binds : parameter.Binds name) :
    (some node, ⟨.parameter, name, parameter, none⟩) ∈ node.sites source :=
  mem_sites_of_inner (block?_inside_of_makesScope (makesScope_of_isFunction isFunction))
    (parameterBindings_subset isFunction
      (mem_parameterBindings_iff.mpr ⟨parameter, isParameter, name, binds, rfl⟩))

private theorem mem_sites_of_import {source : Source} {node clause name definer : Cursor}
    (isImport : node.kind = .importStatement)
    (hasClause : node.contentChildren.find? (·.kind = .importClause) = some clause)
    (imported : (name, definer) ∈ ScopeBuilder.importedNames clause) :
    (node.ancestors.find? makesScope, ⟨.importedName, name, definer, some node⟩) ∈
      node.sites source := by
  have makes : node.makesScope = false := by simp [makesScope, scopeType?, isImport]
  apply mem_sites_of_inner (block?_inside_of_not_makesScope makes)
  simp only [innerBindings, isImport]
  exact mem_importBindings_iff.mpr ⟨clause, hasClause, name, definer, imported, rfl⟩

theorem Introduces.mem_sites {source : Source} {node : Cursor} {block? : Option Cursor}
    {definition : Definition} (introduces : node.Introduces Binds source block? definition) :
    (block?, definition) ∈ node.sites source := by
  cases introduces with
  | varDeclarator isVar declares isDeclarator hasPattern binds =>
      apply mem_sites_of_inner
        (block?_hoisted_of_not_makesVarScope (by simp [makesVarScope, scopeType?, isVar]))
      simp only [innerBindings, isVar]
      exact mem_variableBindings_iff.mpr
        ⟨_, declares, isDeclarator, _, hasPattern, _, binds, rfl⟩
  | lexicalDeclarator isLexical declares isDeclarator hasPattern binds =>
      apply mem_sites_of_inner
        (block?_inside_of_not_makesScope (by simp [makesScope, scopeType?, isLexical]))
      simp only [innerBindings, isLexical]
      exact mem_variableBindings_iff.mpr
        ⟨_, declares, isDeclarator, _, hasPattern, _, binds, rfl⟩
  | loopVar isLoop hasKeyword isVar hasPattern binds =>
      apply mem_sites_of_inner
        (block?_hoisted_of_not_makesVarScope
          (by simp [makesVarScope, scopeType?, isLoop, ScopeType.holdsVar]))
      simp only [innerBindings, isLoop]
      exact mem_loopBindings_iff.mpr
        ⟨_, hasKeyword, _, hasPattern, _, binds, by rw [if_pos isVar]⟩
  | loopLexical isLoop hasKeyword notVar hasPattern binds =>
      apply mem_sites_of_inner
        (block?_inside_of_makesScope (by simp [makesScope, scopeType?, isLoop]))
      simp only [innerBindings, isLoop]
      exact mem_loopBindings_iff.mpr
        ⟨_, hasKeyword, _, hasPattern, _, binds, by rw [if_neg notVar]⟩
  | soleParameter isFunction hasParameter binds =>
      exact mem_sites_of_parameter isFunction (mem_parametersOf_iff.mpr (Or.inl hasParameter))
        binds
  | listedParameter isFunction hasParameters isList listed binds =>
      exact mem_sites_of_parameter isFunction
        (mem_parametersOf_iff.mpr (Or.inr ⟨_, hasParameters, isList, listed⟩)) binds
  | declaredFunction isDeclaration hasName =>
      apply mem_sites_of_outer
      rcases isDeclaration with kindEq | kindEq <;> simp only [outerBindings, kindEq] <;>
        exact mem_ownNameBindings_iff.mpr ⟨_, hasName, rfl⟩
  | functionExpression isExpression hasName =>
      have isFunction : node.kind.isFunction = true := by
        rcases isExpression with kindEq | kindEq | kindEq <;> rw [kindEq] <;> rfl
      apply mem_sites_of_inner
        (block?_inside_of_makesScope (makesScope_of_isFunction isFunction))
      rcases isExpression with kindEq | kindEq | kindEq <;>
        simp only [innerBindings, kindEq] <;>
        exact List.mem_append_left _ (mem_ownNameBindings_iff.mpr ⟨_, hasName, rfl⟩)
  | declaredClass isDeclaration hasName =>
      apply mem_sites_of_outer
      simp only [outerBindings, isDeclaration]
      exact mem_ownNameBindings_iff.mpr ⟨_, hasName, rfl⟩
  | classExpression isExpression hasName =>
      apply mem_sites_of_inner
        (block?_inside_of_makesScope (by simp [makesScope, scopeType?, isExpression]))
      simp only [innerBindings, isExpression]
      exact mem_ownNameBindings_iff.mpr ⟨_, hasName, rfl⟩
  | caught isHandler hasParameter binds =>
      apply mem_sites_of_inner
        (block?_inside_of_makesScope (by simp [makesScope, scopeType?, isHandler]))
      simp only [innerBindings, isHandler]
      exact List.mem_flatMap.mpr ⟨_, Option.mem_toList.mpr hasParameter,
        mem_patternBindings_iff.mpr ⟨_, binds, rfl⟩⟩
  | defaultImport isImport hasClause imports isName =>
      exact mem_sites_of_import isImport hasClause
        (mem_importedNames_iff.mpr (Or.inl ⟨imports, isName, rfl⟩))
  | namespaceImport isImport hasClause imports isSpace hasName =>
      exact mem_sites_of_import isImport hasClause
        (mem_importedNames_iff.mpr (Or.inr (Or.inl ⟨imports, isSpace, hasName⟩)))
  | namedImport isImport hasClause imports isList listed isSpecifier isLocal isName =>
      exact mem_sites_of_import isImport hasClause
        (mem_importedNames_iff.mpr (Or.inr (Or.inr ⟨_, imports, isList, listed, isSpecifier,
          localName?_eq_some_iff.mpr ⟨isLocal, isName⟩⟩)))

/-- The sites of a node are the definitions that it introduces. -/
theorem mem_sites_iff {source : Source} {node : Cursor} {block? : Option Cursor}
    {definition : Definition} :
    (block?, definition) ∈ node.sites source ↔ node.Introduces Binds source block? definition :=
  ⟨introduces_of_mem_sites, Introduces.mem_sites⟩

end Cursor

end AssertLint
