import AssertLint.Tree.Node

/-!
# Scopes, variables and definitions

A scope is a part of the program in which names are defined.  Scopes are
numbered in the order in which a walk meets them.  Each scope is linked to the
scope around it and to those inside it, and a name is looked up by following
the links outwards.  A variable is a name of a scope together with all its
definitions.  Variables and definitions are numbered too, in the order in which
they are made, and refer to each other by these numbers.
-/

namespace AssertLint

/-- What makes a scope. -/
inductive ScopeType where
  | global
  | function
  | block
  | loop
  | handler
  | classBody
  | switch
  deriving DecidableEq, Repr, Inhabited

namespace ScopeType

/-- Whether declarations with `var` belong to scopes of this type. -/
def holdsVar : ScopeType → Bool
  | global | function => true
  | _ => false

/-- The name of the type. -/
def name : ScopeType → String
  | global => "Global"
  | function => "Function"
  | block => "Block"
  | loop => "For"
  | handler => "Catch"
  | classBody => "Class"
  | switch => "Switch"

end ScopeType

/-- How a name comes to be defined. -/
inductive BindingType where
  | caughtException
  | parameter
  | functionName
  | className
  | declaredVariable
  | importedName
  deriving DecidableEq, Repr, Inhabited

namespace BindingType

/-- The name of the type. -/
def name : BindingType → String
  | caughtException => "CatchClause"
  | parameter => "Parameter"
  | functionName => "FunctionName"
  | className => "ClassName"
  | declaredVariable => "Variable"
  | importedName => "ImportBinding"

end BindingType

/-- One definition of a name: the node that spells the name, the construct that
defines it, and for some constructs the declaration around it. -/
structure Definition where
  type : BindingType
  name : Cursor
  node : Cursor
  parent : Option Cursor
  deriving Inhabited

namespace Definition

/-- The expression that the name is initialized with.  Only a variable that is
declared by itself has one: a name bound by a pattern does not get the whole
value. -/
def initializer? (definition : Definition) : Option Cursor :=
  if definition.type = .declaredVariable ∧ definition.node.kind = .variableDeclarator then
    match definition.node.field? .name with
    | some name =>
        if name.address = definition.name.address then
          definition.node.field? .value
        else
          none
    | none => none
  else
    none

end Definition

/-- The number of a scope. -/
abbrev ScopeId := Nat

/-- The number of a variable. -/
abbrev VariableId := Nat

/-- The number of a definition. -/
abbrev DefinitionId := Nat

/-- A variable: its name, the nodes that spell the name where it is defined and the
definitions that these nodes belong to, both in the order of the walk, and the
scope that the variable is in. -/
structure Variable where
  name : String
  identifiers : List Cursor
  definitions : List DefinitionId
  scope : ScopeId
  deriving Inhabited

namespace Variable

/-- A variable that is not defined yet. -/
def ofName (name : String) (scope : ScopeId) : Variable := ⟨name, [], [], scope⟩

/-- The variable with one more definition. -/
def pushDefinition (entry : Variable) (definition : DefinitionId) : Variable :=
  { entry with definitions := entry.definitions ++ [definition] }

/-- The variable with one more node that spells its name. -/
def pushIdentifier (entry : Variable) (identifier : Cursor) : Variable :=
  { entry with identifiers := entry.identifiers ++ [identifier] }

end Variable

/-- A scope: its type, the node that makes it, the scope directly around it, the
scope in which declarations with `var` end up that stand in it, the scopes
directly inside it in the order in which they were opened, its variables by their
names, and its variables in order of first definition. -/
structure Scope where
  type : ScopeType
  block : Cursor
  upper? : Option ScopeId
  variableScope : ScopeId
  children : List ScopeId
  byName : List (String × VariableId)
  entries : List VariableId
  deriving Inhabited

namespace Scope

/-- The variable of a name in the scope. -/
def named? (scope : Scope) (name : String) : Option VariableId :=
  scope.byName.lookup name

/-- The scope with one more scope inside it. -/
def withChild (scope : Scope) (child : ScopeId) : Scope :=
  { scope with children := scope.children ++ [child] }

/-- The scope in which a name leads to a variable. -/
def insertName (scope : Scope) (name : String) (id : VariableId) : Scope :=
  { scope with byName := (name, id) :: scope.byName }

/-- The scope with one more variable. -/
def pushVariable (scope : Scope) (id : VariableId) : Scope :=
  { scope with entries := scope.entries ++ [id] }

end Scope

/-- All scopes, variables and definitions of a source, each in the order of their
numbers, the scope of the whole program if there is one, and the scopes that nodes
have made, by the addresses of the nodes. -/
structure ScopeTable where
  source : Source
  scopes : List Scope
  entries : List Variable
  definitions : List Definition
  global? : Option ScopeId
  made : List (Address × ScopeId)

namespace ScopeTable

/-- The text of a node. -/
def text (table : ScopeTable) (cursor : Cursor) : String := cursor.text table.source

/-- A scope and the scopes around it, from the innermost to the outermost, as
many as the bound allows. -/
def chainWithin (table : ScopeTable) : (bound : Nat) → (scope : ScopeId) → List ScopeId
  | 0, _ => []
  | bound + 1, scope =>
      scope ::
        match table.scopes[scope]?.bind Scope.upper? with
        | some upper => table.chainWithin bound upper
        | none => []

/-- A scope and the scopes around it, from the innermost to the outermost.  The
scopes around a scope have smaller numbers, which bounds their number. -/
def chain (table : ScopeTable) (scope : ScopeId) : List ScopeId :=
  table.chainWithin (scope + 1) scope

/-- The scope in which declarations with `var` end up that stand in a given
scope. -/
def variableScope (table : ScopeTable) (scope : ScopeId) : ScopeId :=
  (table.scopes[scope]?.map Scope.variableScope).getD scope

/-- The scopes directly inside a given one, in order. -/
def children (table : ScopeTable) (scope : ScopeId) : List ScopeId :=
  (table.scopes[scope]?.map Scope.children).getD []

/-- The definitions of a variable. -/
def definitionsOf (table : ScopeTable) (entry : Variable) : List Definition :=
  entry.definitions.filterMap (table.definitions[·]?)

/-- The variables of a scope, in order of first definition. -/
def variablesOf (table : ScopeTable) (scope : Scope) : List Variable :=
  scope.entries.filterMap (table.entries[·]?)

/-- The scope that a node makes, if it makes one. -/
def madeBy? (table : ScopeTable) (node : Cursor) : Option ScopeId :=
  table.made.lookup node.address

/-- The innermost scope around a node, the node's own scope included. -/
def scopeAt? (table : ScopeTable) (node : Cursor) : Option ScopeId :=
  node.selfAndAncestors.findSome? table.madeBy? <|> table.global?

/-- The variable of a name in the first scope of a chain that has one. -/
def lookUp? (table : ScopeTable) (name : String) (chain : List ScopeId) : Option VariableId :=
  chain.findSome? fun scope => table.scopes[scope]?.bind (·.named? name)

/-! ## Defining a name -/

/-- The table with one more definition, not yet of any variable. -/
def pushDefinition (table : ScopeTable) (definition : Definition) : ScopeTable :=
  { table with definitions := table.definitions ++ [definition] }

/-- The table with one more variable, in a scope, by its name and behind the
others. -/
def makeVariable (table : ScopeTable) (scope : ScopeId) (name : String) : ScopeTable :=
  { table with
    entries := table.entries ++ [.ofName name scope]
    scopes := table.scopes.modify scope fun entry =>
      (entry.insertName name table.entries.length).pushVariable table.entries.length }

/-- The variable of a name in a scope, with the table that has it: a variable is
made if the name leads to none yet. -/
def variableFor (table : ScopeTable) (scope : ScopeId) (name : String) :
    VariableId × ScopeTable :=
  match table.scopes[scope]?.bind (·.named? name) with
  | some id => (id, table)
  | none => (table.entries.length, table.makeVariable scope name)

/-- The table in which a variable has one more definition and the node that spells
its name there. -/
def file (table : ScopeTable) (id : VariableId) (definition : DefinitionId)
    (identifier : Cursor) : ScopeTable :=
  { table with
    entries := table.entries.modify id fun entry =>
      (entry.pushDefinition definition).pushIdentifier identifier }

/-- The table with one more definition of a name in a scope. -/
def define (table : ScopeTable) (scope : ScopeId) (definition : Definition) : ScopeTable :=
  let found := (table.pushDefinition definition).variableFor scope (table.text definition.name)
  found.2.file found.1 table.definitions.length definition.name

end ScopeTable

/-- A use of a name: the scope in which it stands and the variable that it
means, if the program defines one. -/
structure Reference where
  scope : ScopeId
  resolved : Option VariableId
  deriving DecidableEq, Repr

/-- What an identifier refers to.  Only identifiers refer to anything. -/
def ScopeTable.reference? (table : ScopeTable) (identifier : Cursor) : Option Reference :=
  if identifier.kind = .identifier then
    (table.scopeAt? identifier).map fun scope =>
      ⟨scope, table.lookUp? (table.text identifier) (table.chain scope)⟩
  else
    none

end AssertLint
