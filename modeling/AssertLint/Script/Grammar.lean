import AssertLint.Script.Grammar.Definition
import AssertLint.Script.Grammar.Expression
import AssertLint.Script.Grammar.Statement

/-!
# The grammar of scripts

All phrases with their forms, and the orders of ranks.  A rank or a phrase
stands above another when it comes first in one of the orders; most pairs are
in no order, and then both readings are followed.
-/

namespace AssertLint

namespace Script

/-- What an order of ranks lists. -/
inductive Standing where
  | rank (rank : Rank)
  | phrase (phrase : Phrase)
  deriving DecidableEq, Repr

namespace Grammar

/-- Every phrase with its form. -/
def rules : List Rule :=
  moduleRules ++ statementRules ++ operandRules ++ definitionRules ++ operationRules ++
    literalRules ++ memberRules ++ seriesRules

/-- The orders of ranks, from above to below. -/
def orders : List (List Standing) :=
  [[.rank .member, .rank .templateCall, .rank .call, .phrase (.node .updateExpression),
      .rank .unary, .rank .exponent, .rank .product, .rank .sum, .rank .shift,
      .rank .comparison, .rank .relation, .rank .equality, .rank .bitwiseAnd,
      .rank .bitwiseXor, .rank .bitwiseOr, .rank .logicalAnd, .rank .logicalOr,
      .rank .conditional, .phrase (.node .sequenceExpression),
      .phrase (.node .arrowFunction)],
    [.rank .assignment, .phrase .primaryExpression],
    [.rank .member, .rank .templateCall, .rank .construction, .rank .call,
      .phrase .expression],
    [.rank .declaration, .rank .literal],
    [.phrase .primaryExpression, .phrase (.node .statementBlock), .rank .object],
    [.phrase (.node .metaProperty), .phrase (.node .importKeyword)],
    [.phrase (.node .importStatement), .phrase (.node .importKeyword)],
    [.phrase (.node .exportStatement), .phrase .primaryExpression],
    [.phrase (.node .lexicalDeclaration), .phrase .primaryExpression]]

end Grammar

end Script

end AssertLint
