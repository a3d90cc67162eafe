import AssertLint.Scope.BoundNames
import AssertLint.Scope.Table
import AssertLint.Tree.Walk

/-!
# Building the scopes of a program

The scopes are built during a walk over the tree.  Entering a node may open a
scope and define names, before or after the opening as the construct demands;
leaving a node closes the scopes that it opened.
-/

namespace AssertLint

/-- The scopes met so far and the innermost one that is still open. -/
structure ScopeBuilder where
  table : ScopeTable
  current? : Option ScopeId

namespace ScopeBuilder

/-- No scope yet. -/
def start (source : Source) : ScopeBuilder := ⟨⟨source, [], [], [], none, []⟩, none⟩

/-- The scope in which declarations with `var` end up that stand in the current
one. -/
def currentVariableScope? (builder : ScopeBuilder) : Option ScopeId :=
  builder.current?.bind fun scope => builder.table.scopes[scope]?.map Scope.variableScope

/-- The scopes met so far, with a further one inside the current one. -/
def scopesWithChild (builder : ScopeBuilder) (child : ScopeId) : List Scope :=
  match builder.current? with
  | some upper => builder.table.scopes.modify upper (·.withChild child)
  | none => builder.table.scopes

/-- Opens a scope inside the current one. -/
def nest (builder : ScopeBuilder) (type : ScopeType) (block : Cursor) : ScopeBuilder :=
  let scope := builder.table.scopes.length
  let variableScope :=
    if type.holdsVar then scope else builder.currentVariableScope?.getD scope
  { table :=
      { builder.table with
        scopes :=
          builder.scopesWithChild scope ++
            [⟨type, block, builder.current?, variableScope, [], [], []⟩]
        global? := if type = .global then some scope else builder.table.global?
        made := (block.address, scope) :: builder.table.made }
    current? := some scope }

/-- Closes the innermost scopes that a node opened. -/
def close (builder : ScopeBuilder) (node : Cursor) : ScopeBuilder :=
  { builder with
    current? :=
      builder.current?.bind fun scope =>
        (builder.table.chain scope).find? fun outer =>
          decide ((builder.table.scopes[outer]?.map (·.block.address)) ≠ some node.address) }

/-- Adds a definition of a name to a scope.  Outside all scopes a definition is
dropped. -/
def define (builder : ScopeBuilder) (scope : Option ScopeId) (definition : Definition) :
    ScopeBuilder :=
  match scope with
  | some scope => { builder with table := builder.table.define scope definition }
  | none => builder

/-- Adds a definition of every name that a pattern binds. -/
def definePattern (builder : ScopeBuilder) (scope : Option ScopeId) (type : BindingType)
    (pattern node : Cursor) (parent : Option Cursor) : ScopeBuilder :=
  pattern.boundNames.foldl
    (fun builder name => builder.define scope ⟨type, name, node, parent⟩) builder

/-- Adds a definition for the name of a function or class, if it has one, to
the current scope. -/
def defineOwnName (builder : ScopeBuilder) (type : BindingType) (node : Cursor) :
    ScopeBuilder :=
  match node.field? .name with
  | some name => builder.define builder.current? ⟨type, name, node, none⟩
  | none => builder

/-- Adds a definition of every name that a parameter binds. -/
def defineParameter (builder : ScopeBuilder) (parameter : Cursor) : ScopeBuilder :=
  builder.definePattern builder.current? .parameter parameter parameter none

/-- The parameters of a function, with or without parentheses. -/
def parametersOf (node : Cursor) : List Cursor :=
  (node.field? .parameter).toList ++
    match node.field? .parameters with
    | some parameters =>
        if parameters.kind = .formalParameters then parameters.contentChildren else []
    | none => []

/-- Enters a function.  The name of a declaration belongs to the scope around
it, that of an expression to the scope of the function itself. -/
def enterFunction (builder : ScopeBuilder) (node : Cursor) : ScopeBuilder :=
  let builder :=
    match node.kind with
    | .functionDeclaration | .generatorFunctionDeclaration =>
        builder.defineOwnName .functionName node
    | _ => builder
  let builder := builder.nest .function node
  let builder :=
    match node.kind with
    | .functionLiteral | .functionExpression | .generatorFunction =>
        builder.defineOwnName .functionName node
    | _ => builder
  (parametersOf node).foldl defineParameter builder

/-- Enters a class.  Its name belongs where that of a function would. -/
def enterClass (builder : ScopeBuilder) (node : Cursor) : ScopeBuilder :=
  if node.kind = .classDeclaration then
    (builder.defineOwnName .className node).nest .classBody node
  else
    (builder.nest .classBody node).defineOwnName .className node

/-- Enters a declaration of variables. -/
def enterVariables (builder : ScopeBuilder) (node : Cursor) : ScopeBuilder :=
  let scope :=
    if node.kind = .variableDeclaration then builder.currentVariableScope?
    else builder.current?
  node.contentChildren.foldl
    (fun builder declarator =>
      if declarator.kind = .variableDeclarator then
        match declarator.field? .name with
        | some name => builder.definePattern scope .declaredVariable name declarator (some node)
        | none => builder
      else
        builder)
    builder

/-- Enters a loop over values.  Its head may declare variables. -/
def enterForIn (builder : ScopeBuilder) (node : Cursor) : ScopeBuilder :=
  let builder := builder.nest .loop node
  match node.field? .keyword, node.field? .left with
  | some keyword, some left =>
      let scope :=
        if builder.table.text keyword = "var" then builder.currentVariableScope?
        else builder.current?
      builder.definePattern scope .declaredVariable left node none
  | _, _ => builder

/-- Enters a handler of exceptions. -/
def enterHandler (builder : ScopeBuilder) (node : Cursor) : ScopeBuilder :=
  let builder := builder.nest .handler node
  match node.field? .parameter with
  | some parameter =>
      builder.definePattern builder.current? .caughtException parameter node none
  | none => builder

/-- The local name of an entry of an import list: its other name if it has one,
else the name imported. -/
def localName? (specifier : Cursor) : Option Cursor :=
  (specifier.field? .otherName <|> specifier.field? .name).filter (·.kind = .identifier)

/-- The local names of an import clause with the nodes that define them. -/
def importedNames (clause : Cursor) : List (Cursor × Cursor) :=
  clause.contentChildren.flatMap fun child =>
    match child.kind with
    | .identifier => [(child, child)]
    | .namespaceImport =>
        ((child.contentChildren.find? (·.kind = .identifier)).map (·, child)).toList
    | .namedImports =>
        child.contentChildren.filterMap fun specifier =>
          if specifier.kind = .importSpecifier then
            (localName? specifier).map (·, specifier)
          else
            none
    | _ => []

/-- Enters an import statement. -/
def enterImport (builder : ScopeBuilder) (node : Cursor) : ScopeBuilder :=
  match node.contentChildren.find? (·.kind = .importClause) with
  | some clause =>
      (importedNames clause).foldl
        (fun builder entry =>
          builder.define builder.current? ⟨.importedName, entry.1, entry.2, some node⟩)
        builder
  | none => builder

/-- Whether a block is the body of a function, which has no scope of its own. -/
def isFunctionBody (node : Cursor) : Bool :=
  match node.parent? with
  | some parent =>
      parent.kind.isFunction &&
        decide ((parent.field? .body).map Cursor.address = some node.address)
  | none => false

/-- What entering a node does. -/
def enter (builder : ScopeBuilder) (node : Cursor) : ScopeBuilder :=
  match node.kind with
  | .program => builder.nest .global node
  | .functionDeclaration | .generatorFunctionDeclaration | .functionLiteral
  | .functionExpression | .generatorFunction | .arrowFunction | .methodDefinition =>
      builder.enterFunction node
  | .classDeclaration | .classExpression => builder.enterClass node
  | .statementBlock => if isFunctionBody node then builder else builder.nest .block node
  | .forStatement => builder.nest .loop node
  | .forInStatement => builder.enterForIn node
  | .catchClause => builder.enterHandler node
  | .switchStatement => builder.nest .switch node
  | .variableDeclaration | .lexicalDeclaration => builder.enterVariables node
  | .importStatement => builder.enterImport node
  | _ => builder

/-- What an event of the walk does. -/
def step (builder : ScopeBuilder) : Event → ScopeBuilder
  | .enter node => builder.enter node
  | .leave node => builder.close node

end ScopeBuilder

/-- The scopes of a tree over a source. -/
def ScopeTable.ofTree (source : Source) (tree : Node) : ScopeTable :=
  (tree.walk.foldl ScopeBuilder.step (ScopeBuilder.start source)).table

end AssertLint
