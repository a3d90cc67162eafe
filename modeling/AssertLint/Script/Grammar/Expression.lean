import AssertLint.Script.Grammar.Basic

/-!
# The grammar of expressions

Operands, the operations on them, and the patterns that look like operands.
-/

namespace AssertLint

namespace Script

namespace Grammar

open Form

/-- Expressions by their sort, objects and arrays, and the patterns for them. -/
def operandRules : List Rule :=
  [(.node .parenthesizedExpression, parenthesized expressions),
    (.expression,
      oneOf
        [part .primaryExpression, node .assignmentExpression,
          node .augmentedAssignmentExpression, node .awaitExpression, node .unaryExpression,
          node .binaryExpression, node .ternaryExpression, node .updateExpression,
          node .newExpression, node .yieldExpression]),
    (.primaryExpression,
      oneOf
        [node .subscriptExpression, node .memberExpression, node .parenthesizedExpression,
          valueName, shownReservedName, "this", "super", token .number, node .stringLiteral,
          node .templateString, node .regexLiteral, "true", "false", "null",
          node .objectLiteral, node .arrayLiteral, node .functionExpression,
          node .arrowFunction, node .generatorFunction, node .classExpression,
          node .metaProperty, node .callExpression]),
    (.node .yieldExpression,
      leaning .right
        (seq
          ["yield",
            oneOf [seq ["*", part .expression], optional (part .expression)]])),
    (.node .objectLiteral,
      ranked .object
        (braced (optional (listOf (optional objectMember) .objectMembers)))),
    (.node .objectPattern,
      ranked .object
        (braced (optional (listOf (optional objectPatternMember) .objectPatternMembers)))),
    (.node .assignmentPattern,
      seq [within .left (part .pattern), "=", within .right (part .expression)]),
    (.node .objectAssignmentPattern,
      seq
        [within .left
          (oneOf
            [shownAs .shorthandPropertyIdentifierPattern anyName,
              part .destructuringPattern]),
          "=", within .right (part .expression)]),
    (.node .arrayLiteral, bracketed (optional (listOf (optional element) .elements))),
    (.node .arrayPattern,
      bracketed (optional (listOf (optional parameter) .patternElements)))]

/-- The operators with two operands and the ranks of their expressions. -/
def binaryOperators : List (String × Rank) :=
  [("&&", .logicalAnd), ("||", .logicalOr), (">>", .shift), (">>>", .shift), ("<<", .shift),
    ("&", .bitwiseAnd), ("^", .bitwiseXor), ("|", .bitwiseOr), ("+", .sum), ("-", .sum),
    ("*", .product), ("/", .product), ("%", .product), ("**", .exponent), ("<", .relation),
    ("<=", .relation), ("==", .equality), ("===", .equality), ("!=", .equality),
    ("!==", .equality), (">=", .relation), (">", .relation), ("??", .conditional),
    ("instanceof", .relation), ("in", .relation)]

/-- An expression with an operator between two operands.  Only the operator of
powers groups to the right, and only membership can be asked of a private
name. -/
def binaryExpression (operator : String) (rank : Rank) : Form :=
  let first : Form :=
    if operator == "in" then oneOf [part .expression, token .privateName]
    else part .expression
  leaning (if rank = .exponent then .right else .left)
    (ranked rank (seq [within .left first, operator, within .right (part .expression)]))

/-- Calls, member accesses, assignments and operators. -/
def operationRules : List Rule :=
  [(.node .callExpression,
      oneOf
        [ranked .call
          (seq
            [within .callee (oneOf [part .expression, node .importKeyword]),
              within .arguments (node .arguments)]),
          ranked .templateCall
            (seq
              [within .callee (oneOf [part .primaryExpression, node .newExpression]),
                within .arguments (node .templateString)]),
          ranked .member
            (seq
              [within .callee (part .primaryExpression), within .optionalChain "?.",
                within .arguments (node .arguments)])]),
    (.node .newExpression,
      leaning .right
        (ranked .construction
          (seq
            ["new",
              within .constructorPart (oneOf [part .primaryExpression, node .newExpression]),
              within .arguments (optional (favored 1 (node .arguments)))]))),
    (.node .awaitExpression, ranked .unary (seq ["await", part .expression])),
    (.node .memberExpression,
      ranked .member
        (seq
          [within .object
            (oneOf [part .expression, part .primaryExpression, node .importKeyword]),
            oneOf [".", within .optionalChain "?."],
            within .property
              (oneOf [token .privateName, shownAs .propertyIdentifier plainName])])),
    (.node .subscriptExpression,
      leaning .right
        (ranked .member
          (seq
            [within .object (oneOf [part .expression, part .primaryExpression]),
              optional (within .optionalChain "?."), "[", within .index expressions, "]"]))),
    (.node .assignmentExpression,
      leaning .right
        (ranked .assignment
          (seq
            [within .left (oneOf [node .parenthesizedExpression, target]), "=",
              within .right (part .expression)]))),
    (.augmentedTarget,
      oneOf
        [node .memberExpression, node .subscriptExpression, shownReservedName, plainName,
          node .parenthesizedExpression]),
    (.node .augmentedAssignmentExpression,
      leaning .right
        (ranked .assignment
          (seq
            [within .left (part .augmentedTarget),
              oneOf
                ["+=", "-=", "*=", "/=", "%=", "^=", "&=", "|=", ">>=", ">>>=", "<<=", "**=",
                  "&&=", "||=", "??="],
              within .right (part .expression)]))),
    (.initializer, seq ["=", within .value (part .expression)]),
    (.destructuringPattern, oneOf [node .objectPattern, node .arrayPattern]),
    (.node .spreadElement, seq ["...", part .expression]),
    (.node .ternaryExpression,
      leaning .right
        (ranked .conditional
          (seq
            [within .condition (part .expression), token .conditionalMark,
              within .consequence (part .expression), ":",
              within .alternative (part .expression)]))),
    (.node .binaryExpression,
      oneOf (binaryOperators.map fun (operator, rank) => binaryExpression operator rank)),
    (.node .unaryExpression,
      leaning .left
        (ranked .unary
          (seq
            [oneOf ["!", "~", "-", "+", "typeof", "void", "delete"],
              within .argument (part .expression)]))),
    (.node .updateExpression,
      leaning .left
        (oneOf
          [seq [within .argument (part .expression), oneOf ["++", "--"]],
            seq [oneOf ["++", "--"], within .argument (part .expression)]])),
    (.node .sequenceExpression,
      leaning .right (listOf (part .expression) .furtherExpressions))]

/-- Strings, templates, regular expressions and the arguments of calls. -/
def literalRules : List Rule :=
  [(.node .stringLiteral,
      oneOf
        [seq ["\x22", optional (part .doubleQuotedParts), "\x22"],
          seq ["\x27", optional (part .singleQuotedParts), "\x27"]]),
    (.node .templateString, seq ["\x60", optional (part .templateParts), "\x60"]),
    (.node .templateSubstitution, seq ["$\x7b", expressions, "\x7d"]),
    (.node .regexLiteral,
      seq
        ["/", within .pattern (token .regexPattern), token .regexEnd,
          optional (within .flags (token .regexFlags))]),
    (.node .metaProperty, oneOf [seq ["new", ".", "target"], seq ["import", ".", "meta"]]),
    (.node .arguments,
      parenthesized (optional (listOf (optional element) .elements)))]

end Grammar

end Script

end AssertLint
