import AssertLint.Scope.Analysis

/-!
# What entering a node does

Entering a node records some names in the scope around the node, opens a scope if
the node makes one, and records further names inside.  This file lists the names
of each kind of node with their places and shows that entering a node does this
and nothing else.  Recording a name leaves the links between scopes alone, so a
builder without its variables is moved by the opening and closing of scopes only.
-/

namespace AssertLint

namespace Cursor

/-- The type of the scope that a node makes, if it makes one. -/
def scopeType? (node : Cursor) : Option ScopeType :=
  match node.kind with
  | .program => some .global
  | .functionDeclaration | .generatorFunctionDeclaration | .functionLiteral
  | .functionExpression | .generatorFunction | .arrowFunction | .methodDefinition =>
      some .function
  | .classDeclaration | .classExpression => some .classBody
  | .statementBlock => if ScopeBuilder.isFunctionBody node then none else some .block
  | .forStatement | .forInStatement => some .loop
  | .catchClause => some .handler
  | .switchStatement => some .switch
  | _ => none

/-- Whether a node makes a scope. -/
def makesScope (node : Cursor) : Bool := node.scopeType?.isSome

/-- Whether a node makes a scope in which declarations with `var` end up. -/
def makesVarScope (node : Cursor) : Bool := node.scopeType?.any ScopeType.holdsVar

theorem makesScope_of_makesVarScope {node : Cursor} (holdsVar : node.makesVarScope = true) :
    node.makesScope = true := by
  unfold makesVarScope at holdsVar
  unfold makesScope
  cases typeEq : node.scopeType? with
  | none => simp [typeEq] at holdsVar
  | some type => rfl

end Cursor

/-- Where a name is recorded when a node is entered: in the scope around the node,
in the innermost scope once the node is entered, or in the scope that holds the
`var` declarations of that one. -/
inductive Place where
  | outside
  | inside
  | hoisted
  deriving DecidableEq

/-- A definition and its place. -/
structure Binding where
  place : Place
  definition : Definition

namespace Cursor

/-- The bindings of the names in a pattern. -/
def patternBindings (place : Place) (type : BindingType) (pattern node : Cursor)
    (parent : Option Cursor) : List Binding :=
  pattern.boundNames.map fun name => ⟨place, ⟨type, name, node, parent⟩⟩

/-- The binding of the own name of a function or class. -/
def ownNameBindings (place : Place) (type : BindingType) (node : Cursor) : List Binding :=
  (node.field? .name).toList.map fun name => ⟨place, ⟨type, name, node, none⟩⟩

/-- The bindings of the parameters of a function. -/
def parameterBindings (node : Cursor) : List Binding :=
  (ScopeBuilder.parametersOf node).flatMap fun parameter =>
    patternBindings .inside .parameter parameter parameter none

/-- The bindings of a declaration of variables. -/
def variableBindings (place : Place) (node : Cursor) : List Binding :=
  node.contentChildren.flatMap fun declarator =>
    if declarator.kind = .variableDeclarator then
      (declarator.field? .name).toList.flatMap fun name =>
        patternBindings place .declaredVariable name declarator (some node)
    else
      []

/-- The bindings in the head of a loop over values. -/
def loopBindings (source : Source) (node : Cursor) : List Binding :=
  match node.field? .keyword, node.field? .left with
  | some keyword, some left =>
      patternBindings (if keyword.text source = "var" then .hoisted else .inside)
        .declaredVariable left node none
  | _, _ => []

/-- The bindings of an import statement. -/
def importBindings (node : Cursor) : List Binding :=
  (node.contentChildren.find? (·.kind = .importClause)).toList.flatMap fun clause =>
    (ScopeBuilder.importedNames clause).map fun entry =>
      ⟨.inside, ⟨.importedName, entry.1, entry.2, some node⟩⟩

/-- The bindings that are recorded before a node opens its scope. -/
def outerBindings (node : Cursor) : List Binding :=
  match node.kind with
  | .functionDeclaration | .generatorFunctionDeclaration =>
      node.ownNameBindings .outside .functionName
  | .classDeclaration => node.ownNameBindings .outside .className
  | _ => []

/-- The bindings that are recorded after a node has opened its scope. -/
def innerBindings (source : Source) (node : Cursor) : List Binding :=
  match node.kind with
  | .functionLiteral | .functionExpression | .generatorFunction =>
      node.ownNameBindings .inside .functionName ++ node.parameterBindings
  | .functionDeclaration | .generatorFunctionDeclaration | .arrowFunction
  | .methodDefinition => node.parameterBindings
  | .classExpression => node.ownNameBindings .inside .className
  | .forInStatement => node.loopBindings source
  | .catchClause =>
      (node.field? .parameter).toList.flatMap fun parameter =>
        patternBindings .inside .caughtException parameter node none
  | .variableDeclaration => node.variableBindings .hoisted
  | .lexicalDeclaration => node.variableBindings .inside
  | .importStatement => node.importBindings
  | _ => []

/-- All bindings of a node, in the order in which they are recorded. -/
def bindings (source : Source) (node : Cursor) : List Binding :=
  node.outerBindings ++ node.innerBindings source

end Cursor

namespace ScopeBuilder

/-- The scope at a place. -/
def scopeFor? (builder : ScopeBuilder) : Place → Option ScopeId
  | .outside | .inside => builder.current?
  | .hoisted => builder.currentVariableScope?

/-- Records a binding at its place. -/
def record (builder : ScopeBuilder) (binding : Binding) : ScopeBuilder :=
  builder.define (builder.scopeFor? binding.place) binding.definition

/-- Records bindings in order. -/
def recordAll (builder : ScopeBuilder) (bindings : List Binding) : ScopeBuilder :=
  bindings.foldl record builder

/-- Opens the scope that a node makes, if it makes one. -/
def openFor (builder : ScopeBuilder) (node : Cursor) : ScopeBuilder :=
  match node.scopeType? with
  | some type => builder.nest type node
  | none => builder

end ScopeBuilder

/-! ## Builders without names -/

/-- The scope without its variables. -/
def Scope.bare (scope : Scope) : Scope := { scope with byName := [], entries := [] }

/-- The table without variables and definitions. -/
def ScopeTable.bare (table : ScopeTable) : ScopeTable :=
  { table with scopes := table.scopes.map Scope.bare, entries := [], definitions := [] }

/-- The builder without variables and definitions. -/
def ScopeBuilder.bare (builder : ScopeBuilder) : ScopeBuilder :=
  { builder with table := builder.table.bare }

theorem Scope.map_bare_modify {change change' : Scope → Scope}
    (commutes : ∀ scope, (change scope).bare = change' scope.bare) (scopes : List Scope)
    (id : ScopeId) :
    (scopes.modify id change).map bare = (scopes.map bare).modify id change' := by
  apply List.ext_getElem?
  intro place
  simp only [List.getElem?_map, List.getElem?_modify]
  cases scopes[place]? with
  | none => rfl
  | some scope => by_cases here : id = place <;> simp [here, commutes]

@[simp]
theorem ScopeTable.bare_pushDefinition (table : ScopeTable) (definition : Definition) :
    (table.pushDefinition definition).bare = table.bare := rfl

@[simp]
theorem ScopeTable.bare_file (table : ScopeTable) (id : VariableId) (number : DefinitionId)
    (identifier : Cursor) : (table.file id number identifier).bare = table.bare := rfl

@[simp]
theorem ScopeTable.bare_makeVariable (table : ScopeTable) (scope : ScopeId) (name : String) :
    (table.makeVariable scope name).bare = table.bare := by
  simp only [makeVariable, bare]
  rw [Scope.map_bare_modify (fun entry => show ((entry.insertName name _).pushVariable _).bare =
    id entry.bare from rfl), List.modify_id]

@[simp]
theorem ScopeTable.bare_variableFor (table : ScopeTable) (scope : ScopeId) (name : String) :
    (table.variableFor scope name).2.bare = table.bare := by
  unfold variableFor
  split
  · rfl
  · exact table.bare_makeVariable scope name

@[simp]
theorem ScopeTable.bare_define (table : ScopeTable) (scope : ScopeId) (definition : Definition) :
    (table.define scope definition).bare = table.bare := by
  simp [define]

theorem ScopeTable.chainWithin_bare (table : ScopeTable) (bound : Nat) (scope : ScopeId) :
    table.bare.chainWithin bound scope = table.chainWithin bound scope := by
  induction bound generalizing scope with
  | zero => rfl
  | succ bound ih =>
      have upperEq : table.bare.scopes[scope]?.bind Scope.upper? =
          table.scopes[scope]?.bind Scope.upper? := by
        rw [bare, List.getElem?_map, Option.bind_map]
        rfl
      rw [chainWithin, chainWithin, upperEq]
      cases table.scopes[scope]?.bind Scope.upper? with
      | none => rfl
      | some upper => exact congrArg _ (ih upper)

namespace ScopeBuilder

theorem scopeFor?_bare (builder : ScopeBuilder) (place : Place) :
    builder.bare.scopeFor? place = builder.scopeFor? place := by
  have variableEq : builder.bare.currentVariableScope? = builder.currentVariableScope? := by
    simp [currentVariableScope?, bare, ScopeTable.bare, Scope.bare, Function.comp_def]
  cases place with
  | outside | inside => rfl
  | hoisted => exact variableEq

theorem bare_nest (builder : ScopeBuilder) (type : ScopeType) (block : Cursor) :
    (builder.nest type block).bare = builder.bare.nest type block := by
  have variableEq : builder.bare.currentVariableScope? = builder.currentVariableScope? :=
    builder.scopeFor?_bare .hoisted
  have childEq (child : ScopeId) : (builder.scopesWithChild child).map Scope.bare =
      builder.bare.scopesWithChild child := by
    simp only [scopesWithChild, bare, ScopeTable.bare]
    cases builder.current? with
    | none => rfl
    | some upper =>
        exact Scope.map_bare_modify (fun scope => show (scope.withChild child).bare =
          (fun bareScope => bareScope.withChild child) scope.bare from rfl) _ _
  simp only [nest, bare, ScopeTable.bare, List.map_append, childEq, List.length_map]
  simp only [bare, ScopeTable.bare] at variableEq
  rw [variableEq]
  rfl

theorem bare_openFor (builder : ScopeBuilder) (node : Cursor) :
    (builder.openFor node).bare = builder.bare.openFor node := by
  unfold openFor
  cases node.scopeType? with
  | none => rfl
  | some type => exact builder.bare_nest type node

theorem bare_close (builder : ScopeBuilder) (node : Cursor) :
    (builder.close node).bare = builder.bare.close node := by
  have blockEq (scope : ScopeId) : builder.table.bare.scopes[scope]?.map (·.block.address) =
      builder.table.scopes[scope]?.map (·.block.address) := by
    rw [ScopeTable.bare, List.getElem?_map, Option.map_map]
    rfl
  simp only [close, bare, ScopeTable.chain, ScopeTable.chainWithin_bare, blockEq]

@[simp]
theorem bare_define (builder : ScopeBuilder) (scope : Option ScopeId)
    (definition : Definition) : (builder.define scope definition).bare = builder.bare := by
  cases scope with
  | none => rfl
  | some scope => simp [define, bare]

@[simp]
theorem bare_recordAll (builder : ScopeBuilder) (bindings : List Binding) :
    (builder.recordAll bindings).bare = builder.bare := by
  induction bindings generalizing builder with
  | nil => rfl
  | cons binding rest ih =>
      rw [recordAll, List.foldl_cons]
      exact (ih (builder.record binding)).trans (bare_define _ _ _)

theorem scopeFor?_of_bare_eq {builder later : ScopeBuilder}
    (bareEq : later.bare = builder.bare) (place : Place) :
    later.scopeFor? place = builder.scopeFor? place := by
  rw [← scopeFor?_bare later, bareEq, scopeFor?_bare]

theorem source_of_bare_eq {builder later : ScopeBuilder} (bareEq : later.bare = builder.bare) :
    later.table.source = builder.table.source :=
  congrArg (·.table.source) bareEq

/-! ## Entering a node -/

theorem recordAll_append (builder : ScopeBuilder) (first second : List Binding) :
    builder.recordAll (first ++ second) = (builder.recordAll first).recordAll second :=
  List.foldl_append

/-- A loop whose every round records bindings records all of them.  A round may
rely on everything but the names recorded so far. -/
theorem foldl_eq_recordAll {α : Type} {round : ScopeBuilder → α → ScopeBuilder}
    {bindingsOf : α → List Binding} {builder : ScopeBuilder}
    (records : ∀ later item, later.bare = builder.bare →
      round later item = later.recordAll (bindingsOf item)) (items : List α) :
    items.foldl round builder = builder.recordAll (items.flatMap bindingsOf) := by
  suffices ∀ later : ScopeBuilder, later.bare = builder.bare →
      items.foldl round later = later.recordAll (items.flatMap bindingsOf) from
    this builder rfl
  induction items with
  | nil => exact fun _ _ => rfl
  | cons item rest ih =>
      intro later same
      rw [List.foldl_cons, records later item same, List.flatMap_cons, recordAll_append]
      exact ih _ ((later.bare_recordAll _).trans same)

theorem definePattern_eq {builder : ScopeBuilder} {scope : Option ScopeId} {place : Place}
    (isPlace : builder.scopeFor? place = scope) (type : BindingType) (pattern node : Cursor)
    (parent : Option Cursor) :
    builder.definePattern scope type pattern node parent =
      builder.recordAll (Cursor.patternBindings place type pattern node parent) := by
  rw [Cursor.patternBindings, List.map_eq_flatMap]
  apply foldl_eq_recordAll
  intro later name same
  rw [← isPlace, ← scopeFor?_of_bare_eq same]
  rfl

theorem defineOwnName_eq {builder : ScopeBuilder} {place : Place}
    (isPlace : builder.scopeFor? place = builder.current?) (type : BindingType)
    (node : Cursor) :
    builder.defineOwnName type node = builder.recordAll (node.ownNameBindings place type) := by
  unfold defineOwnName Cursor.ownNameBindings
  cases node.field? .name with
  | none => rfl
  | some name =>
      change builder.define builder.current? _ = builder.record _
      rw [record, isPlace]

theorem defineParameters_eq (builder : ScopeBuilder) (node : Cursor) :
    (parametersOf node).foldl defineParameter builder =
      builder.recordAll node.parameterBindings := by
  apply foldl_eq_recordAll
  intro later parameter _
  exact definePattern_eq (show later.scopeFor? .inside = later.current? from rfl) .parameter
    parameter parameter none

theorem enterVariables_eq {builder : ScopeBuilder} {node : Cursor} {place : Place}
    (isPlace : builder.scopeFor? place =
      if node.kind = .variableDeclaration then builder.currentVariableScope?
      else builder.current?) :
    builder.enterVariables node = builder.recordAll (node.variableBindings place) := by
  apply foldl_eq_recordAll
  intro later declarator same
  by_cases isDeclarator : declarator.kind = .variableDeclarator
  · rw [if_pos isDeclarator, if_pos isDeclarator]
    cases declarator.field? .name with
    | none => rfl
    | some name =>
        rw [Option.toList_some, List.flatMap_singleton]
        exact definePattern_eq ((scopeFor?_of_bare_eq same place).trans isPlace) _ _ _ _
  · rw [if_neg isDeclarator, if_neg isDeclarator]
    rfl

theorem enterImport_eq (builder : ScopeBuilder) (node : Cursor) :
    builder.enterImport node = builder.recordAll node.importBindings := by
  unfold enterImport Cursor.importBindings
  cases node.contentChildren.find? (·.kind = .importClause) with
  | none => rfl
  | some clause =>
      rw [Option.toList_some, List.flatMap_singleton, List.map_eq_flatMap]
      apply foldl_eq_recordAll
      intro later entry _
      rfl

theorem enterFunction_eq (builder : ScopeBuilder) (source : Source) {node : Cursor}
    (isFunction : node.kind.isFunction = true) :
    builder.enterFunction node =
      ((builder.recordAll node.outerBindings).openFor node).recordAll
        (node.innerBindings source) := by
  have outerName (later : ScopeBuilder) :=
    defineOwnName_eq (show later.scopeFor? .outside = later.current? from rfl) .functionName node
  have innerName (later : ScopeBuilder) :=
    defineOwnName_eq (show later.scopeFor? .inside = later.current? from rfl) .functionName node
  rw [enterFunction, defineParameters_eq]
  cases kindEq : node.kind
  case functionDeclaration | generatorFunctionDeclaration =>
    simp only [kindEq, openFor, Cursor.scopeType?, Cursor.outerBindings, Cursor.innerBindings,
      outerName]
  case functionLiteral | functionExpression | generatorFunction =>
    simp only [kindEq, openFor, Cursor.scopeType?, Cursor.outerBindings, Cursor.innerBindings,
      innerName, recordAll_append]
    rfl
  case arrowFunction | methodDefinition =>
    simp only [kindEq, openFor, Cursor.scopeType?, Cursor.outerBindings, Cursor.innerBindings]
    rfl
  all_goals simp [Kind.isFunction, kindEq] at isFunction

theorem enterClass_eq (builder : ScopeBuilder) (source : Source) {node : Cursor}
    (isClass : node.kind = .classDeclaration ∨ node.kind = .classExpression) :
    builder.enterClass node =
      ((builder.recordAll node.outerBindings).openFor node).recordAll
        (node.innerBindings source) := by
  unfold enterClass
  rcases isClass with isDeclaration | isExpression
  · rw [if_pos isDeclaration,
      defineOwnName_eq (show builder.scopeFor? .outside = builder.current? from rfl)]
    simp only [isDeclaration, openFor, Cursor.scopeType?, Cursor.outerBindings,
      Cursor.innerBindings]
    rfl
  · rw [if_neg (by simp [isExpression]),
      defineOwnName_eq (show (builder.nest .classBody node).scopeFor? .inside = _ from rfl)]
    simp only [isExpression, openFor, Cursor.scopeType?, Cursor.outerBindings,
      Cursor.innerBindings]
    rfl

theorem enterForIn_eq (builder : ScopeBuilder) {node : Cursor} :
    builder.enterForIn node =
      (builder.nest .loop node).recordAll (node.loopBindings builder.table.source) := by
  unfold enterForIn Cursor.loopBindings
  cases node.field? .keyword with
  | none => rfl
  | some keyword =>
      cases node.field? .left with
      | none => rfl
      | some left =>
          apply definePattern_eq
          change scopeFor? _ (if keyword.text builder.table.source = "var" then _ else _) =
            if keyword.text builder.table.source = "var" then _ else _
          split <;> rfl

theorem enterHandler_eq (builder : ScopeBuilder) {node : Cursor} :
    builder.enterHandler node =
      (builder.nest .handler node).recordAll
        ((node.field? .parameter).toList.flatMap fun parameter =>
          Cursor.patternBindings .inside .caughtException parameter node none) := by
  unfold enterHandler
  cases node.field? .parameter with
  | none => rfl
  | some parameter =>
      rw [Option.toList_some, List.flatMap_singleton]
      exact definePattern_eq (show (builder.nest .handler node).scopeFor? .inside = _ from rfl)
        .caughtException parameter node none

/-- Entering a node records its outer bindings, opens its scope, and records its
inner bindings. -/
theorem enter_eq (builder : ScopeBuilder) (node : Cursor) :
    builder.enter node =
      ((builder.recordAll node.outerBindings).openFor node).recordAll
        (node.innerBindings builder.table.source) := by
  unfold enter
  split
  next isProgram =>
    simp [openFor, Cursor.scopeType?, Cursor.outerBindings, Cursor.innerBindings, isProgram,
      recordAll]
  iterate 7 next isFunction =>
    exact enterFunction_eq builder _ (by rw [isFunction]; rfl)
  next isDeclaration => exact enterClass_eq builder _ (Or.inl isDeclaration)
  next isExpression => exact enterClass_eq builder _ (Or.inr isExpression)
  next isBlock =>
    cases isBody : isFunctionBody node <;>
      simp [openFor, Cursor.scopeType?, Cursor.outerBindings, Cursor.innerBindings, isBlock,
        isBody, recordAll]
  next isLoop =>
    simp [openFor, Cursor.scopeType?, Cursor.outerBindings, Cursor.innerBindings, isLoop,
      recordAll]
  next isLoop =>
    rw [enterForIn_eq]
    simp [openFor, Cursor.scopeType?, Cursor.outerBindings, Cursor.innerBindings, isLoop,
      recordAll]
  next isHandler =>
    rw [enterHandler_eq]
    simp [openFor, Cursor.scopeType?, Cursor.outerBindings, Cursor.innerBindings, isHandler,
      recordAll]
  next isSwitch =>
    simp [openFor, Cursor.scopeType?, Cursor.outerBindings, Cursor.innerBindings, isSwitch,
      recordAll]
  next isVar =>
    rw [enterVariables_eq (show builder.scopeFor? .hoisted = _ by rw [if_pos isVar]; rfl)]
    simp [openFor, Cursor.scopeType?, Cursor.outerBindings, Cursor.innerBindings, isVar,
      recordAll]
  next isLexical =>
    rw [enterVariables_eq
      (show builder.scopeFor? .inside = _ by rw [if_neg (by simp [isLexical])]; rfl)]
    simp [openFor, Cursor.scopeType?, Cursor.outerBindings, Cursor.innerBindings, isLexical,
      recordAll]
  next isImport =>
    rw [enterImport_eq]
    simp [openFor, Cursor.scopeType?, Cursor.outerBindings, Cursor.innerBindings, isImport,
      recordAll]
  next =>
    simp [openFor, Cursor.scopeType?, Cursor.outerBindings, Cursor.innerBindings, recordAll, *]

/-! ## The source stays -/

theorem source_openFor (builder : ScopeBuilder) (node : Cursor) :
    (builder.openFor node).table.source = builder.table.source := by
  unfold openFor
  cases node.scopeType? <;> rfl

theorem source_step (builder : ScopeBuilder) (event : Event) :
    (builder.step event).table.source = builder.table.source := by
  cases event with
  | enter node =>
      rw [step, enter_eq, source_of_bare_eq (bare_recordAll _ _), source_openFor,
        source_of_bare_eq (bare_recordAll _ _)]
  | leave node => rfl

theorem source_foldl_step (builder : ScopeBuilder) (events : List Event) :
    (events.foldl step builder).table.source = builder.table.source := by
  induction events generalizing builder with
  | nil => rfl
  | cons event rest ih => rw [List.foldl_cons, ih, source_step]

end ScopeBuilder

@[simp]
theorem ScopeTable.source_ofTree (source : Source) (tree : Node) :
    (ofTree source tree).source = source :=
  ScopeBuilder.source_foldl_step _ _

end AssertLint
