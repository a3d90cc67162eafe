/-!
# Kinds of syntax nodes and the fields that hold them

Every node of a syntax tree has a kind, and a child may stand in a named field
of its parent.  Both have names that appear in queries and in answers.
-/

namespace AssertLint

/-- What a syntax node is.  The words and signs of the text that get a node of
their own are tokens; every other kind is that of a named node.  A tree can hold more
kinds of named nodes than are listed, and they are told apart by their names. -/
inductive Kind where
  | program
  | errorRoot
  | hashBangLine
  | comment
  | htmlComment
  | importStatement
  | importClause
  | namespaceImport
  | namedImports
  | importSpecifier
  | importAttribute
  | exportStatement
  | namespaceExport
  | exportClause
  | exportSpecifier
  | expressionStatement
  | variableDeclaration
  | lexicalDeclaration
  | variableDeclarator
  | statementBlock
  | ifStatement
  | elseClause
  | switchStatement
  | switchBody
  | switchCase
  | switchDefault
  | forStatement
  | forInStatement
  | whileStatement
  | doStatement
  | tryStatement
  | catchClause
  | finallyClause
  | withStatement
  | breakStatement
  | continueStatement
  | debuggerStatement
  | returnStatement
  | throwStatement
  | emptyStatement
  | labeledStatement
  | classExpression
  | classDeclaration
  | classHeritage
  | classBody
  | classStaticBlock
  | fieldDefinition
  | methodDefinition
  | decorator
  | functionLiteral
  | functionExpression
  | functionDeclaration
  | generatorFunction
  | generatorFunctionDeclaration
  | arrowFunction
  | formalParameters
  | parenthesizedExpression
  | sequenceExpression
  | assignmentExpression
  | augmentedAssignmentExpression
  | ternaryExpression
  | binaryExpression
  | unaryExpression
  | updateExpression
  | awaitExpression
  | yieldExpression
  | callExpression
  | newExpression
  | memberExpression
  | subscriptExpression
  | arguments
  | spreadElement
  | optionalChain
  | objectLiteral
  | pair
  | computedPropertyName
  | arrayLiteral
  | objectPattern
  | arrayPattern
  | assignmentPattern
  | objectAssignmentPattern
  | pairPattern
  | restPattern
  | identifier
  | propertyIdentifier
  | privatePropertyIdentifier
  | shorthandPropertyIdentifier
  | shorthandPropertyIdentifierPattern
  | statementIdentifier
  | thisExpression
  | superExpression
  | importKeyword
  | metaProperty
  | numberLiteral
  | stringLiteral
  | stringFragment
  | escapeSequence
  | templateString
  | templateSubstitution
  | regexLiteral
  | regexPattern
  | regexFlags
  | trueLiteral
  | falseLiteral
  | nullLiteral
  | undefinedLiteral
  | other (name : String)
  | token (text : String)
  deriving DecidableEq, Hashable, Repr, Inhabited

namespace Kind

/-- The name of a kind.  A token is named by its text. -/
def name : Kind → String
  | program => "program"
  | errorRoot => "ERROR"
  | hashBangLine => "hash_bang_line"
  | comment => "comment"
  | htmlComment => "html_comment"
  | importStatement => "import_statement"
  | importClause => "import_clause"
  | namespaceImport => "namespace_import"
  | namedImports => "named_imports"
  | importSpecifier => "import_specifier"
  | importAttribute => "import_attribute"
  | exportStatement => "export_statement"
  | namespaceExport => "namespace_export"
  | exportClause => "export_clause"
  | exportSpecifier => "export_specifier"
  | expressionStatement => "expression_statement"
  | variableDeclaration => "variable_declaration"
  | lexicalDeclaration => "lexical_declaration"
  | variableDeclarator => "variable_declarator"
  | statementBlock => "statement_block"
  | ifStatement => "if_statement"
  | elseClause => "else_clause"
  | switchStatement => "switch_statement"
  | switchBody => "switch_body"
  | switchCase => "switch_case"
  | switchDefault => "switch_default"
  | forStatement => "for_statement"
  | forInStatement => "for_in_statement"
  | whileStatement => "while_statement"
  | doStatement => "do_statement"
  | tryStatement => "try_statement"
  | catchClause => "catch_clause"
  | finallyClause => "finally_clause"
  | withStatement => "with_statement"
  | breakStatement => "break_statement"
  | continueStatement => "continue_statement"
  | debuggerStatement => "debugger_statement"
  | returnStatement => "return_statement"
  | throwStatement => "throw_statement"
  | emptyStatement => "empty_statement"
  | labeledStatement => "labeled_statement"
  | classExpression => "class"
  | classDeclaration => "class_declaration"
  | classHeritage => "class_heritage"
  | classBody => "class_body"
  | classStaticBlock => "class_static_block"
  | fieldDefinition => "field_definition"
  | methodDefinition => "method_definition"
  | decorator => "decorator"
  | functionLiteral => "function"
  | functionExpression => "function_expression"
  | functionDeclaration => "function_declaration"
  | generatorFunction => "generator_function"
  | generatorFunctionDeclaration => "generator_function_declaration"
  | arrowFunction => "arrow_function"
  | formalParameters => "formal_parameters"
  | parenthesizedExpression => "parenthesized_expression"
  | sequenceExpression => "sequence_expression"
  | assignmentExpression => "assignment_expression"
  | augmentedAssignmentExpression => "augmented_assignment_expression"
  | ternaryExpression => "ternary_expression"
  | binaryExpression => "binary_expression"
  | unaryExpression => "unary_expression"
  | updateExpression => "update_expression"
  | awaitExpression => "await_expression"
  | yieldExpression => "yield_expression"
  | callExpression => "call_expression"
  | newExpression => "new_expression"
  | memberExpression => "member_expression"
  | subscriptExpression => "subscript_expression"
  | arguments => "arguments"
  | spreadElement => "spread_element"
  | optionalChain => "optional_chain"
  | objectLiteral => "object"
  | pair => "pair"
  | computedPropertyName => "computed_property_name"
  | arrayLiteral => "array"
  | objectPattern => "object_pattern"
  | arrayPattern => "array_pattern"
  | assignmentPattern => "assignment_pattern"
  | objectAssignmentPattern => "object_assignment_pattern"
  | pairPattern => "pair_pattern"
  | restPattern => "rest_pattern"
  | identifier => "identifier"
  | propertyIdentifier => "property_identifier"
  | privatePropertyIdentifier => "private_property_identifier"
  | shorthandPropertyIdentifier => "shorthand_property_identifier"
  | shorthandPropertyIdentifierPattern => "shorthand_property_identifier_pattern"
  | statementIdentifier => "statement_identifier"
  | thisExpression => "this"
  | superExpression => "super"
  | importKeyword => "import"
  | metaProperty => "meta_property"
  | numberLiteral => "number"
  | stringLiteral => "string"
  | stringFragment => "string_fragment"
  | escapeSequence => "escape_sequence"
  | templateString => "template_string"
  | templateSubstitution => "template_substitution"
  | regexLiteral => "regex"
  | regexPattern => "regex_pattern"
  | regexFlags => "regex_flags"
  | trueLiteral => "true"
  | falseLiteral => "false"
  | nullLiteral => "null"
  | undefinedLiteral => "undefined"
  | other name => name
  | token text => text

/-- The kinds of named nodes that are listed, in an order of no meaning. -/
def all : List Kind :=
  [.program, .errorRoot, .hashBangLine, .comment, .htmlComment, .importStatement,
    .importClause, .namespaceImport, .namedImports, .importSpecifier, .importAttribute,
    .exportStatement, .namespaceExport, .exportClause, .exportSpecifier, .expressionStatement,
    .variableDeclaration, .lexicalDeclaration, .variableDeclarator, .statementBlock,
    .ifStatement, .elseClause, .switchStatement, .switchBody, .switchCase, .switchDefault,
    .forStatement, .forInStatement, .whileStatement, .doStatement, .tryStatement, .catchClause,
    .finallyClause, .withStatement, .breakStatement, .continueStatement, .debuggerStatement,
    .returnStatement, .throwStatement, .emptyStatement, .labeledStatement, .classExpression,
    .classDeclaration, .classHeritage, .classBody, .classStaticBlock, .fieldDefinition,
    .methodDefinition, .decorator, .functionExpression, .functionDeclaration,
    .generatorFunction, .generatorFunctionDeclaration, .arrowFunction, .formalParameters,
    .parenthesizedExpression, .sequenceExpression, .assignmentExpression,
    .augmentedAssignmentExpression, .ternaryExpression, .binaryExpression, .unaryExpression,
    .updateExpression, .awaitExpression, .yieldExpression, .callExpression, .newExpression,
    .memberExpression, .subscriptExpression, .arguments, .spreadElement, .optionalChain,
    .objectLiteral, .pair, .computedPropertyName, .arrayLiteral, .objectPattern, .arrayPattern,
    .assignmentPattern, .objectAssignmentPattern, .pairPattern, .restPattern, .identifier,
    .propertyIdentifier, .privatePropertyIdentifier, .shorthandPropertyIdentifier,
    .shorthandPropertyIdentifierPattern, .statementIdentifier, .thisExpression, .superExpression,
    .importKeyword, .metaProperty, .numberLiteral, .stringLiteral, .stringFragment,
    .escapeSequence, .templateString, .templateSubstitution, .regexLiteral, .regexPattern,
    .regexFlags, .trueLiteral, .falseLiteral, .nullLiteral, .undefinedLiteral]

/-- The listed kind of named nodes with a given name. -/
def ofName? (name : String) : Option Kind :=
  all.find? (·.name == name)

/-- Whether nodes of the kind are named, that is, not tokens. -/
def isNamed : Kind → Bool
  | token _ => false
  | _ => true

/-- The kinds of functions, methods included. -/
def isFunction : Kind → Bool
  | functionDeclaration | generatorFunctionDeclaration | functionLiteral
  | functionExpression | generatorFunction | arrowFunction | methodDefinition => true
  | _ => false

/-- The kinds of literals whose value is written in place. -/
def isLiteral : Kind → Bool
  | numberLiteral | stringLiteral | templateString | regexLiteral
  | trueLiteral | falseLiteral | nullLiteral | undefinedLiteral => true
  | _ => false

/-- The kinds whose nodes are single words or signs of the text and so have no
children other than comments. -/
def isLeaf : Kind → Bool
  | hashBangLine | comment | htmlComment | emptyStatement | optionalChain
  | identifier | propertyIdentifier | privatePropertyIdentifier
  | shorthandPropertyIdentifier | shorthandPropertyIdentifierPattern | statementIdentifier
  | thisExpression | superExpression | importKeyword | metaProperty
  | numberLiteral | stringFragment | escapeSequence | regexPattern | regexFlags
  | trueLiteral | falseLiteral | nullLiteral | undefinedLiteral | token _ => true
  | _ => false

end Kind

/-- The part that a child plays in its parent. -/
inductive Field where
  | otherName
  | alternative
  | argument
  | arguments
  | body
  | condition
  | consequence
  | constructorPart
  | declaration
  | decorator
  | finalizer
  | flags
  | callee
  | handler
  | increment
  | index
  | initializer
  | key
  | keyword
  | label
  | left
  | member
  | name
  | object
  | operator
  | optionalChain
  | parameter
  | parameters
  | pattern
  | property
  | right
  | source
  | value
  deriving DecidableEq, Hashable, Repr, Inhabited

namespace Field

/-- The name of a field, as it is written. -/
def spelling : Field → String
  | otherName => "alias"
  | alternative => "alternative"
  | argument => "argument"
  | arguments => "arguments"
  | body => "body"
  | condition => "condition"
  | consequence => "consequence"
  | constructorPart => "constructor"
  | declaration => "declaration"
  | decorator => "decorator"
  | finalizer => "finalizer"
  | flags => "flags"
  | callee => "function"
  | handler => "handler"
  | increment => "increment"
  | index => "index"
  | initializer => "initializer"
  | key => "key"
  | keyword => "kind"
  | label => "label"
  | left => "left"
  | member => "member"
  | name => "name"
  | object => "object"
  | operator => "operator"
  | optionalChain => "optional_chain"
  | parameter => "parameter"
  | parameters => "parameters"
  | pattern => "pattern"
  | property => "property"
  | right => "right"
  | source => "source"
  | value => "value"

/-- Every field. -/
def all : List Field :=
  [.otherName, .alternative, .argument, .arguments, .body, .condition, .consequence,
    .constructorPart, .declaration, .decorator, .finalizer, .flags, .callee, .handler,
    .increment, .index, .initializer, .key, .keyword, .label, .left, .member, .name, .object,
    .operator, .optionalChain, .parameter, .parameters, .pattern, .property, .right, .source,
    .value]

/-- The field with a given name. -/
def ofName? (name : String) : Option Field :=
  all.find? (·.spelling == name)

end Field

end AssertLint
