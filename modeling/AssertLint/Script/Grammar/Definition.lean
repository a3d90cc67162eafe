import AssertLint.Script.Grammar.Basic

/-!
# The grammar of functions and classes
-/

namespace AssertLint

namespace Script

namespace Grammar

open Form

/-- Functions and classes, as expressions and as declarations. -/
def definitionRules : List Rule :=
  [(.node .classExpression,
      ranked .literal
        (seq
          [optional (part .decorators), "class", within .name (optional plainName),
            optional (node .classHeritage), within .body (node .classBody)])),
    (.node .classDeclaration,
      ranked .declaration
        (seq
          [optional (part .decorators), "class", within .name plainName,
            optional (node .classHeritage), within .body (node .classBody),
            optional (token .lineEnd)])),
    (.node .classHeritage, seq ["extends", part .expression]),
    (.node .functionExpression,
      ranked .literal
        (seq
          [optional "async", "function", within .name (optional plainName), signature,
            functionBody])),
    (.node .functionDeclaration,
      leaning .right
        (ranked .declaration
          (seq
            [optional "async", "function", within .name plainName, signature, functionBody,
              optional (token .lineEnd)]))),
    (.node .generatorFunction,
      ranked .literal
        (seq
          [optional "async", "function", "*", within .name (optional plainName), signature,
            functionBody])),
    (.node .generatorFunctionDeclaration,
      leaning .right
        (ranked .declaration
          (seq
            [optional "async", "function", "*", within .name plainName, signature,
              functionBody, optional (token .lineEnd)]))),
    (.node .arrowFunction,
      seq
        [optional "async",
          oneOf [within .parameter (oneOf [shownReservedName, plainName]), signature], "=>",
          within .body (oneOf [part .expression, node .statementBlock])])]

/-- Decorators, the bodies of classes, parameters, and the members of classes
and objects. -/
def memberRules : List Rule :=
  [(.node .decorator,
      seq
        ["@",
          oneOf
            [plainName, shownAs .memberExpression (part .decoratorMember),
              shownAs .callExpression (part .decoratorCall)]]),
    (.decoratorMember,
      ranked .member
        (seq
          [within .object decoratorName, ".",
            within .property (shownAs .propertyIdentifier plainName)])),
    (.decoratorCall,
      ranked .call
        (seq [within .callee decoratorName, within .arguments (node .arguments)])),
    (.node .classBody, braced (optional (part .classMembers))),
    (.node .fieldDefinition,
      seq
        [optional (part .decorators), optional "static", within .property (part .propertyName),
          optional (part .initializer)]),
    (.node .formalParameters,
      parenthesized (optional (seq [listOf parameter .parameters, optional ","]))),
    (.node .classStaticBlock,
      seq ["static", within .body (node .statementBlock), optional (token .lineEnd)]),
    (.pattern, favored (-1) (oneOf [target, node .restPattern])),
    (.node .restPattern, leaning .right (seq ["...", target])),
    (.node .methodDefinition,
      seq
        [optional (part .decorators), optional (oneOf ["static", token .staticGetter]),
          optional "async", optional (oneOf ["get", "set", "*"]),
          within .name (part .propertyName), signature, functionBody]),
    (.node .pair,
      seq [within .key (part .propertyName), ":", within .value (part .expression)]),
    (.node .pairPattern,
      seq [within .key (part .propertyName), ":", within .value parameter]),
    (.propertyName,
      oneOf
        [shownAs .propertyIdentifier anyName, token .privateName, node .stringLiteral,
          token .number, node .computedPropertyName]),
    (.node .computedPropertyName, bracketed (part .expression))]
where
  decoratorName : Form :=
    oneOf [plainName, shownAs .memberExpression (part .decoratorMember)]

/-- The rows of equal parts. -/
def seriesRules : List Rule :=
  [row .statements (part .statement),
    row .decorators (within .decorator (node .decorator)),
    row .exportSpecifiers (behindComma (node .exportSpecifier)),
    row .importSpecifiers (behindComma (node .importSpecifier)),
    row .declarators (behindComma (node .variableDeclarator)),
    row .switchCases (oneOf [node .switchCase, node .switchDefault]),
    row .objectMembers (behindComma (optional objectMember)),
    row .objectPatternMembers (behindComma (optional objectPatternMember)),
    row .elements (behindComma (optional element)),
    row .patternElements (behindComma (optional parameter)),
    row .furtherExpressions (behindComma (part .expression)),
    row .doubleQuotedParts (oneOf [token .doubleQuotedText, token .escape]),
    row .singleQuotedParts (oneOf [token .singleQuotedText, token .escape]),
    row .templateParts
      (oneOf [token .templateText, token .escape, node .templateSubstitution]),
    row .classMembers
      (oneOf
        [seq [within .member (node .methodDefinition), optional ";"],
          seq [within .member (node .fieldDefinition), semicolon],
          within .member (node .classStaticBlock), ";"]),
    row .parameters (behindComma parameter)]
where
  row (phrase : Phrase) (form : Form) : Rule := (phrase, series phrase form)

end Grammar

end Script

end AssertLint
