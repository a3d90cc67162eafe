import AssertLint.Value.Origin

/-!
# Test files and test functions

A test file imports the test function of the framework.  The function may be
imported or required, under any name.  A test is a function that is handed to a
call of the test function, or of one of its properties.
-/

namespace AssertLint

/-- The module that provides the test function. -/
def testModule : String := "ava"

/-- The function that loads a module. -/
def loadFunction : String := "require"

namespace ScopeTable

/-- Whether an expression is the plain string that names the test module. -/
def namesTestModule (table : ScopeTable) (cursor : Cursor) : Bool :=
  cursor.plainString? table.source = some testModule

/-- Whether an expression loads the test module. -/
def loadsTestModule (table : ScopeTable) (cursor : Cursor) : Bool :=
  let call := cursor.withoutParentheses
  decide (call.kind = .callExpression) &&
    (match call.field? .callee with
      | some callee =>
          decide (callee.kind = .identifier) && decide (table.text callee = loadFunction)
      | none => false) &&
    (match call.callArguments? with
      | some (first :: _) => table.namesTestModule first
      | _ => false)

/-- Whether a definition brings in the test function. -/
def definesTestFunction (table : ScopeTable) (definition : Definition) : Bool :=
  match definition.type with
  | .importedName =>
      decide (definition.node.kind = .identifier) &&
        (match definition.parent with
          | some statement =>
              decide (statement.kind = .importStatement) &&
                (match statement.field? .source with
                  | some module => table.namesTestModule module
                  | none => false)
          | none => false)
  | .declaredVariable =>
      match definition.initializer? with
      | some value => table.loadsTestModule value
      | none => false
  | _ => false

/-- The variables of the program that are test functions. -/
def testFunctions (table : ScopeTable) : List VariableId :=
  match table.global?.bind (table.scopes[·]?) with
  | some scope =>
      scope.entries.filter fun id =>
        table.entries[id]?.any fun entry =>
          (table.definitionsOf entry).any table.definesTestFunction
  | none => []

/-- Whether the source imports the test function. -/
def isTestFile (table : ScopeTable) : Bool := !table.testFunctions.isEmpty

/-- Whether a node is a call of the test function or of one of its properties. -/
def isTestCall (table : ScopeTable) (node : Cursor) : Bool :=
  decide (node.kind = .callExpression) &&
    match node.field? .callee with
    | some callee =>
        match (table.reference? callee.rootObject).bind Reference.resolved with
        | some id => table.testFunctions.contains id
        | none => false
    | none => false

/-- Whether a function is handed to a test call. -/
def isTestFunction (table : ScopeTable) (function : Cursor) : Bool :=
  function.kind.isFunction &&
    match function.parent? with
    | some arguments =>
        decide (arguments.kind = .arguments) &&
          (match arguments.parent? with
            | some call => table.isTestCall call
            | none => false)
    | none => false

/-- Whether a node stands in a test. -/
def isInTest (table : ScopeTable) (node : Cursor) : Bool :=
  node.ancestors.any table.isTestFunction

end ScopeTable

end AssertLint
