import AssertLint.Proofs.Scope.Resolution

/-!
# Names resolve where they are declared

While the tree is walked, a definition goes to the scope that is open at its
construct.  Afterwards a name is resolved by climbing from its own node.  For most
constructs no scope is made between the two, however deep in a pattern the name
stands, so the name of such a definition, taken as a use, means the variable that
holds the definition.
-/

namespace AssertLint

/-- A definition belongs to the scope in which its name stands: it is a parameter, a
caught exception, an imported name, a variable of a declaration or a loop without
`var`, or the own name of a function or class expression. -/
inductive Definition.BindsInPlace (source : Source) (definition : Definition) : Prop where
  | parameter (isParameter : definition.type = .parameter)
  | caughtException (isCaught : definition.type = .caughtException)
  | importedName (isImported : definition.type = .importedName)
  | lexicalDeclaration {declaration : Cursor} (isVariable : definition.type = .declaredVariable)
      (declares : definition.parent = some declaration)
      (isLexical : declaration.kind = .lexicalDeclaration)
  | lexicalLoop {keyword : Cursor} (isVariable : definition.type = .declaredVariable)
      (isLoop : definition.node.kind = .forInStatement)
      (hasKeyword : definition.node.field? .keyword = some keyword)
      (notVar : keyword.text source ≠ "var")
  | functionExpression (isOwnName : definition.type = .functionName)
      (isExpression : definition.node.kind = .functionLiteral ∨
        definition.node.kind = .functionExpression ∨ definition.node.kind = .generatorFunction)
  | classExpression (isOwnName : definition.type = .className)
      (isExpression : definition.node.kind = .classExpression)

namespace Cursor

theorem find?_makesScope_of_child {node child : Cursor} (isChild : child ∈ node.children)
    (makes : node.makesScope = true) : child.ancestors.find? makesScope = some node := by
  rw [ancestors_of_mem_children isChild]
  exact List.find?_cons_of_pos makes

theorem find?_makesScope_of_child_of_not {node child : Cursor} (isChild : child ∈ node.children)
    (makesNone : node.makesScope = false) :
    child.ancestors.find? makesScope = node.ancestors.find? makesScope := by
  rw [ancestors_of_mem_children isChild]
  exact List.find?_cons_of_neg (by simp [makesNone])

theorem Binds.find?_makesScope {pattern name : Cursor} (binds : pattern.Binds name) :
    name.ancestors.find? makesScope = pattern.ancestors.find? makesScope := by
  apply binds.find?_ancestors
  intro cursor isPattern
  unfold makesScope scopeType?
  cases kindEq : cursor.kind <;> simp [kindEq, Kind.patternPart?] at isPattern <;> rfl

private theorem find?_makesScope_import {node clause child : Cursor}
    (isImport : node.kind = .importStatement)
    (hasClause : node.contentChildren.find? (·.kind = .importClause) = some clause)
    (imports : child ∈ clause.contentChildren) :
    child.ancestors.find? makesScope = node.ancestors.find? makesScope := by
  have isClause : clause.kind = .importClause := by simpa using List.find?_some hasClause
  have clauseMem := mem_children_of_mem_contentChildren (List.mem_of_find?_eq_some hasClause)
  rw [find?_makesScope_of_child_of_not (mem_children_of_mem_contentChildren imports)
      (by simp [makesScope, scopeType?, isClause]),
    find?_makesScope_of_child_of_not clauseMem (by simp [makesScope, scopeType?, isImport])]

/-- Between the name of such a definition and the node to whose scope it belongs, no node
makes a scope. -/
theorem Introduces.find?_makesScope {source : Source} {node : Cursor} {block? : Option Cursor}
    {definition : Definition} (introduces : node.Introduces Binds source block? definition)
    (inPlace : definition.BindsInPlace source) :
    definition.name.ancestors.find? makesScope = block? := by
  cases introduces with
  | varDeclarator isVar declares isDeclarator hasPattern binds =>
      cases inPlace with
      | lexicalDeclaration _ parentEq isLexical =>
          obtain rfl := Option.some.inj parentEq
          simp [isVar] at isLexical
      | lexicalLoop _ isLoop _ _ => simp [isDeclarator] at isLoop
      | parameter isOther | caughtException isOther | importedName isOther
      | functionExpression isOther | classExpression isOther => simp at isOther
  | lexicalDeclarator isLexical declares isDeclarator hasPattern binds =>
      rw [binds.find?_makesScope,
        find?_makesScope_of_child_of_not (mem_children_of_field? hasPattern)
          (by simp [makesScope, scopeType?, isDeclarator]),
        find?_makesScope_of_child_of_not (mem_children_of_mem_contentChildren declares)
          (by simp [makesScope, scopeType?, isLexical])]
  | loopVar isLoop hasKeyword isVar hasPattern binds =>
      cases inPlace with
      | lexicalDeclaration _ parentEq _ => simp at parentEq
      | lexicalLoop _ _ hasKeyword' notVar =>
          obtain rfl := Option.some.inj (hasKeyword.symm.trans hasKeyword')
          exact absurd isVar notVar
      | parameter isOther | caughtException isOther | importedName isOther
      | functionExpression isOther | classExpression isOther => simp at isOther
  | loopLexical isLoop hasKeyword notVar hasPattern binds =>
      rw [binds.find?_makesScope]
      exact find?_makesScope_of_child (mem_children_of_field? hasPattern)
        (by simp [makesScope, scopeType?, isLoop])
  | soleParameter isFunction hasParameter binds =>
      rw [binds.find?_makesScope]
      exact find?_makesScope_of_child (mem_children_of_field? hasParameter)
        (makesScope_of_isFunction isFunction)
  | listedParameter isFunction hasParameters isList listed binds =>
      rw [binds.find?_makesScope,
        find?_makesScope_of_child_of_not (mem_children_of_mem_contentChildren listed)
          (by simp [makesScope, scopeType?, isList])]
      exact find?_makesScope_of_child (mem_children_of_field? hasParameters)
        (makesScope_of_isFunction isFunction)
  | declaredFunction isDeclaration hasName =>
      cases inPlace with
      | functionExpression _ isExpression =>
          rcases isDeclaration with kindEq | kindEq <;> simp [kindEq] at isExpression
      | lexicalDeclaration isOther | lexicalLoop isOther | parameter isOther
      | caughtException isOther | importedName isOther | classExpression isOther =>
          simp at isOther
  | functionExpression isExpression hasName =>
      have isFunction : node.kind.isFunction = true := by
        rcases isExpression with kindEq | kindEq | kindEq <;> rw [kindEq] <;> rfl
      exact find?_makesScope_of_child (mem_children_of_field? hasName)
        (makesScope_of_isFunction isFunction)
  | declaredClass isDeclaration hasName =>
      cases inPlace with
      | classExpression _ isExpression => simp [isDeclaration] at isExpression
      | lexicalDeclaration isOther | lexicalLoop isOther | parameter isOther
      | caughtException isOther | importedName isOther | functionExpression isOther =>
          simp at isOther
  | classExpression isExpression hasName =>
      exact find?_makesScope_of_child (mem_children_of_field? hasName)
        (by simp [makesScope, scopeType?, isExpression])
  | caught isHandler hasParameter binds =>
      rw [binds.find?_makesScope]
      exact find?_makesScope_of_child (mem_children_of_field? hasParameter)
        (by simp [makesScope, scopeType?, isHandler])
  | defaultImport isImport hasClause imports isName =>
      exact find?_makesScope_import isImport hasClause imports
  | namespaceImport isImport hasClause imports isSpace hasName =>
      have nameMem := mem_children_of_mem_contentChildren (List.mem_of_find?_eq_some hasName)
      rw [find?_makesScope_of_child_of_not nameMem (by simp [makesScope, scopeType?, isSpace])]
      exact find?_makesScope_import isImport hasClause imports
  | namedImport isImport hasClause imports isList listed isSpecifier isLocal isName =>
      have nameMem := isLocal.elim mem_children_of_field?
        fun hasName => mem_children_of_field? hasName.2
      rw [find?_makesScope_of_child_of_not nameMem
          (by simp [makesScope, scopeType?, isSpecifier]),
        find?_makesScope_of_child_of_not (mem_children_of_mem_contentChildren listed)
          (by simp [makesScope, scopeType?, isList])]
      exact find?_makesScope_import isImport hasClause imports

end Cursor

namespace ScopeTable

section Program

variable {source : Source} {tree : Node}

/-- A definition that a variable holds is introduced by a node of the tree, for the scope
of the variable and under its name. -/
theorem Holds.exists_site (isProgram : tree.kind = .program) {id : VariableId}
    {definition : Definition} (holds : (ofTree source tree).Holds id definition) :
    ∃ node ∈ tree.cursors, ∃ entry scope, (ofTree source tree).entries[id]? = some entry ∧
      (ofTree source tree).scopes[entry.scope]? = some scope ∧
      scope.named? (definition.name.text source) = some id ∧
      node.Introduces Cursor.Binds source (some scope.block) definition := by
  have filed := isFiled_of_program source isProgram
  obtain ⟨entry, entryFound, isHeld⟩ := holds
  have entryMem := List.mem_of_getElem? entryFound
  obtain ⟨scope, scopeFound⟩ : ∃ scope, (ofTree source tree).scopes[entry.scope]? = some scope :=
    ⟨_, List.getElem?_eq_getElem (filed.inScope entry entryMem)⟩
  have isListed := (filed.listed _ scope scopeFound id).mpr ⟨entry, entryFound, rfl⟩
  have defines : (ofTree source tree).Defines scope.block entry.name definition :=
    ⟨scope, List.mem_of_getElem? scopeFound, rfl, entry,
      mem_variablesOf_iff.mpr ⟨id, isListed, entryFound⟩, rfl, isHeld⟩
  obtain ⟨⟨node, nodeIn, introduces⟩, textEq⟩ := (defines_ofTree_iff isProgram).mp defines
  exact ⟨node, nodeIn, entry, scope, entryFound, scopeFound,
    (filed.named _ scope scopeFound _ id).mpr ⟨entry, entryFound, rfl, textEq.symm⟩, introduces⟩

/-- An identifier stands in the scope of the nearest node that makes one, and refers to
what its name means from there outwards. -/
theorem exists_reference? (source : Source) (isProgram : tree.kind = .program)
    {identifier : Cursor} (inTree : identifier ∈ tree.cursors)
    (isName : identifier.kind = .identifier) :
    ∃ reference scope, (ofTree source tree).reference? identifier = some reference ∧
      (ofTree source tree).scopes[reference.scope]? = some scope ∧
      identifier.ancestors.find? Cursor.makesScope = some scope.block ∧
      ∀ id, reference.resolved = some id ↔
        (ofTree source tree).Means (identifier.text source)
          (identifier.ancestors.filter Cursor.makesScope) id := by
  obtain ⟨number, block, scopeAt, nearest, isScope⟩ := exists_scopeAt? source isProgram inTree
  obtain ⟨scope, scopeFound, rfl⟩ := isScope.exists_scope
  have makesNone : ¬ identifier.makesScope = true := by
    simp [Cursor.makesScope, Cursor.scopeType?, isName]
  rw [Cursor.selfAndAncestors, List.find?_cons_of_neg makesNone] at nearest
  refine ⟨⟨number, (ofTree source tree).lookUp? (identifier.text source)
    ((ofTree source tree).chain number)⟩, scope, ?_, scopeFound, nearest, ?_⟩
  · rw [reference?, if_pos isName, scopeAt, Option.map_some, ScopeTable.text, source_ofTree]
  · intro id
    rw [filter_makesScope_ancestors nearest]
    exact lookUp?_eq_some_iff isProgram (forall₂_chain scopeFound)

/-- The name of a definition that is bound in place resolves in the scope in which it
stands, to every variable that holds the definition. -/
theorem reference?_of_holds (isProgram : tree.kind = .program) {id : VariableId}
    {definition : Definition} (holds : (ofTree source tree).Holds id definition)
    (isName : definition.name.kind = .identifier) (inPlace : definition.BindsInPlace source) :
    ∃ entry, (ofTree source tree).entries[id]? = some entry ∧
      (ofTree source tree).reference? definition.name = some ⟨entry.scope, some id⟩ := by
  obtain ⟨node, nodeIn, entry, scope, entryFound, scopeFound, isNamed, introduces⟩ :=
    holds.exists_site isProgram
  refine ⟨entry, entryFound, ?_⟩
  have nameIn : definition.name ∈ tree.cursors :=
    Cursor.mem_cursors_iff.mpr (introduces.owns.2.liesIn (Cursor.mem_cursors_iff.mp nodeIn))
  -- The walk up from the name ends at the scope that holds the definition.
  obtain ⟨⟨number, resolved⟩, nearestScope, referenceEq, nearestFound, nearest, resolves⟩ :=
    exists_reference? source isProgram nameIn isName
  have found := introduces.find?_makesScope inPlace
  have sameBlock : nearestScope.block = scope.block :=
    Option.some.inj (nearest.symm.trans found)
  have isScope := isScopeOf_block nearestFound
  rw [sameBlock] at isScope
  obtain rfl : number = entry.scope :=
    isScope.unique (ScopeBuilder.follows_walk source tree).nodup_blocks_of_tree
      (isScopeOf_block scopeFound)
  -- In that scope the name leads to the variable.
  have means : (ofTree source tree).Means (definition.name.text source)
      (definition.name.ancestors.filter Cursor.makesScope) id := by
    rw [filter_makesScope_ancestors found, Cursor.selfAndAncestors,
      List.filter_cons_of_pos (List.find?_some found)]
    exact Means.here ((isVariableOf_iff isProgram scopeFound).mpr isNamed)
  rw [referenceEq, show resolved = some id from (resolves id).mpr means]

/-- Of every parameter, caught exception, import, variable declared without `var` and own
name of an expression, exactly one variable holds the definition, and the name where it is
declared resolves to that variable, in its own scope. -/
theorem declared_name_resolves_to_holder (isProgram : tree.kind = .program)
    {definition : Definition} (recorded : definition ∈ (ofTree source tree).definitions)
    (isName : definition.name.kind = .identifier) (inPlace : definition.BindsInPlace source) :
    ∃ id entry, (ofTree source tree).entries[id]? = some entry ∧
      (ofTree source tree).reference? definition.name = some ⟨entry.scope, some id⟩ ∧
      ∀ other, (ofTree source tree).Holds other definition ↔ other = id := by
  obtain ⟨id, holds⟩ := (isFiled_of_program source isProgram).exists_holds recorded
  obtain ⟨entry, entryFound, resolves⟩ := reference?_of_holds isProgram holds isName inPlace
  refine ⟨id, entry, entryFound, resolves, ?_⟩
  intro other
  constructor
  · intro otherHolds
    obtain ⟨_, -, resolvesToo⟩ := reference?_of_holds isProgram otherHolds isName inPlace
    have sameReference := Option.some.inj (resolvesToo.symm.trans resolves)
    exact Option.some.inj (congrArg Reference.resolved sameReference)
  · rintro rfl
    exact holds

end Program

/-- The text `function f([b],b){}`. -/
def repeatedParameterText : Source := "function f([b],b){}".toList

/-- The tree of the text. -/
def repeatedParameterTree : Node :=
  .ofChildren .program 0 19
    [.ofChildren .functionDeclaration 0 19
      [Node.inField (.leaf .identifier 9 10) .name,
        Node.inField
          (.ofChildren .formalParameters 10 17
            [.ofChildren .arrayPattern 11 14 [.leaf .identifier 12 13], .leaf .identifier 15 16])
          .parameters,
        Node.inField (.ofChildren .statementBlock 17 19 []) .body]]

/-- The definition at a place, after that of the function. -/
def repeatedParameter (place : Nat) : Definition :=
  (ofTree repeatedParameterText repeatedParameterTree).definitions.getD (place + 1) default

/-- Both parameters resolve to one variable, which alone holds the definition in the
pattern. -/
theorem repeatedParameter_resolves :
    (ofTree repeatedParameterText repeatedParameterTree).reference? (repeatedParameter 1).name =
        some ⟨1, some 1⟩ ∧
      (ofTree repeatedParameterText repeatedParameterTree).reference? (repeatedParameter 0).name =
        some ⟨1, some 1⟩ ∧
      ∀ other, (ofTree repeatedParameterText repeatedParameterTree).Holds other
        (repeatedParameter 0) ↔ other = 1 := by
  have inPattern : (ofTree repeatedParameterText repeatedParameterTree).reference?
      (repeatedParameter 0).name = some ⟨1, some 1⟩ := by decide +kernel
  have bound : 1 < (ofTree repeatedParameterText repeatedParameterTree).definitions.length := by
    decide +kernel
  have recorded : repeatedParameter 0 ∈
      (ofTree repeatedParameterText repeatedParameterTree).definitions := by
    simp [repeatedParameter, bound]
  obtain ⟨id, entry, -, resolves, isHolder⟩ := declared_name_resolves_to_holder rfl recorded
    (by decide +kernel) (.parameter (by decide +kernel))
  have sameReference := Option.some.inj (resolves.symm.trans inPattern)
  obtain rfl : id = 1 := Option.some.inj (congrArg Reference.resolved sameReference)
  exact ⟨by decide +kernel, inPattern, isHolder⟩

end ScopeTable

end AssertLint
