import AssertLint.Script.Grammar.Basic

/-!
# The grammar of statements
-/

namespace AssertLint

namespace Script

namespace Grammar

open Form

/-- Scripts, and what they take from and give to other scripts. -/
def moduleRules : List Rule :=
  [(.node .program, seq [optional (token .hashBang), optional (part .statements)]),
    (.node .exportStatement,
      oneOf
        [seq
          ["export",
            oneOf
              [seq ["*", part .fromClause],
                seq [node .namespaceExport, part .fromClause],
                seq [node .exportClause, part .fromClause],
                node .exportClause],
            semicolon],
          seq
            [optional (part .decorators), "export",
              oneOf
                [within .declaration (part .declaration),
                  seq
                    ["default",
                      oneOf
                        [within .declaration (part .declaration),
                          seq [within .value (part .expression), semicolon]]]]]]),
    (.node .namespaceExport, seq ["*", "as", part .exportName]),
    (.node .exportClause,
      braced
        (seq [optional (listOf (node .exportSpecifier) .exportSpecifiers), optional ","])),
    (.node .exportSpecifier,
      seq
        [within .name (part .exportName),
          optional (seq ["as", within .otherName (part .exportName)])]),
    (.exportName, oneOf [plainName, node .stringLiteral]),
    (.declaration,
      oneOf
        [node .functionDeclaration, node .generatorFunctionDeclaration, node .classDeclaration,
          node .lexicalDeclaration, node .variableDeclaration]),
    (.node .importKeyword, "import"),
    (.node .importStatement,
      seq
        ["import",
          oneOf
            [seq [node .importClause, part .fromClause],
              within .source (node .stringLiteral)],
          optional (node .importAttribute), semicolon]),
    (.node .importClause,
      oneOf
        [node .namespaceImport, node .namedImports,
          seq
            [plainName,
              optional (behindComma (oneOf [node .namespaceImport, node .namedImports]))]]),
    (.fromClause, seq ["from", within .source (node .stringLiteral)]),
    (.node .namespaceImport, seq ["*", "as", plainName]),
    (.node .namedImports,
      braced
        (seq [optional (listOf (node .importSpecifier) .importSpecifiers), optional ","])),
    (.node .importSpecifier,
      oneOf
        [within .name plainName,
          seq [within .name (part .exportName), "as", within .otherName plainName]]),
    (.node .importAttribute, seq ["with", node .objectLiteral])]

/-- The head of a loop over the members of a value. -/
def forHeader : Form :=
  parenthesized
    (seq
      [oneOf
        [within .left (oneOf [target, node .parenthesizedExpression]),
          seq
            [within .keyword (shownAs (.token "var") "var"), within .left declaredName,
              optional (part .initializer)],
          seq
            [within .keyword
              (oneOf
                [shownAs (.token "let") "let", shownAs (.token "const") "const"]),
              within .left declaredName, optional (token .lineEnd)]],
        oneOf ["in", "of"], within .right expressions])

/-- The head of a loop with a condition. -/
def forClauses : Form :=
  parenthesized
    (seq
      [oneOf
        [within .initializer (oneOf [node .lexicalDeclaration, node .variableDeclaration]),
          seq [within .initializer expressions, ";"],
          within .initializer (node .emptyStatement)],
        within .condition (oneOf [seq [expressions, ";"], node .emptyStatement]),
        within .increment (optional expressions)])

/-- Statements. -/
def statementRules : List Rule :=
  [(.statement,
      oneOf
        [node .exportStatement, node .importStatement, node .debuggerStatement,
          node .expressionStatement, part .declaration, node .statementBlock,
          node .ifStatement, node .switchStatement, node .forStatement, node .forInStatement,
          node .whileStatement, node .doStatement, node .tryStatement, node .withStatement,
          node .breakStatement, node .continueStatement, node .returnStatement,
          node .throwStatement, node .emptyStatement, node .labeledStatement]),
    (.node .expressionStatement, seq [expressions, semicolon]),
    (.node .variableDeclaration,
      seq ["var", listOf (node .variableDeclarator) .declarators, semicolon]),
    (.node .lexicalDeclaration,
      seq
        [oneOf ["let", "const"], listOf (node .variableDeclarator) .declarators, semicolon]),
    (.node .variableDeclarator,
      seq [within .name declaredName, optional (part .initializer)]),
    (.node .statementBlock,
      leaning .right
        (seq [braced (optional (part .statements)), optional (token .lineEnd)])),
    (.node .elseClause, seq ["else", part .statement]),
    (.node .ifStatement,
      leaning .right
        (seq
          ["if", within .condition (node .parenthesizedExpression),
            within .consequence (part .statement),
            optional (within .alternative (node .elseClause))])),
    (.node .switchStatement,
      seq
        ["switch", within .value (node .parenthesizedExpression),
          within .body (node .switchBody)]),
    (.node .forStatement, seq ["for", forClauses, within .body (part .statement)]),
    (.node .forInStatement,
      seq ["for", optional "await", part .forHeader, within .body (part .statement)]),
    (.forHeader, forHeader),
    (.node .whileStatement,
      seq
        ["while", within .condition (node .parenthesizedExpression),
          within .body (part .statement)]),
    (.node .doStatement,
      leaning .right
        (seq
          ["do", within .body (part .statement), "while",
            within .condition (node .parenthesizedExpression), optional semicolon])),
    (.node .tryStatement,
      seq
        ["try", within .body (node .statementBlock),
          optional (within .handler (node .catchClause)),
          optional (within .finalizer (node .finallyClause))]),
    (.node .withStatement,
      seq
        ["with", within .object (node .parenthesizedExpression),
          within .body (part .statement)]),
    (.node .breakStatement,
      seq ["break", within .label (optional (shownAs .statementIdentifier plainName)), semicolon]),
    (.node .continueStatement,
      seq
        ["continue", within .label (optional (shownAs .statementIdentifier plainName)),
          semicolon]),
    (.node .debuggerStatement, seq ["debugger", semicolon]),
    (.node .returnStatement, seq ["return", optional expressions, semicolon]),
    (.node .throwStatement, seq ["throw", expressions, semicolon]),
    (.node .emptyStatement, ";"),
    (.node .labeledStatement,
      favored (-1)
        (seq
          [within .label (shownAs .statementIdentifier anyName), ":",
            within .body (part .statement)])),
    (.node .switchBody, braced (optional (part .switchCases))),
    (.node .switchCase,
      seq
        ["case", within .value expressions, ":", within .body (optional (part .statements))]),
    (.node .switchDefault, seq ["default", ":", within .body (optional (part .statements))]),
    (.node .catchClause,
      seq
        ["catch", optional (parenthesized (within .parameter declaredName)),
          within .body (node .statementBlock)]),
    (.node .finallyClause, seq ["finally", within .body (node .statementBlock)])]

end Grammar

end Script

end AssertLint
