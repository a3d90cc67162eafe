import AssertLint.Tree.Kind

/-!
# Terminals and phrases

The grammar of scripts speaks of terminals, which are read off the text, and
of phrases, which are put together from terminals and other phrases.  A phrase
that becomes a node of the tree is named by the kind of the node; the others
only hold their parts together, and the parts become children of the next node
above.
-/

namespace AssertLint

namespace Script

/-- What can be read at one place of a text. -/
inductive Terminal where
  /-- The end of the text. -/
  | finish
  | word (spelling : String)
  | sign (spelling : String)
  | identifier
  | privateName
  | number
  /-- Plain characters between double quotes. -/
  | doubleQuotedText
  /-- Plain characters between single quotes. -/
  | singleQuotedText
  | escape
  | templateText
  | regexPattern
  /-- The slash behind the pattern of a regular expression. -/
  | regexEnd
  | regexFlags
  /-- The words `static get` at the end of a line. -/
  | staticGetter
  | hashBang
  /-- The end of a statement that no semicolon marks.  It takes up no text. -/
  | lineEnd
  /-- The question mark of a conditional expression. -/
  | conditionalMark
  | comment
  | htmlComment
  deriving DecidableEq, Hashable, Repr, Inhabited

namespace Terminal

/-- A spelling that begins with a letter is a word, any other a sign. -/
def ofSpelling (spelling : String) : Terminal :=
  if (spelling.toList.head?.map Char.isAlpha).getD false then .word spelling
  else .sign spelling

/-- The kind of the nodes that a terminal gets, if it gets nodes. -/
def kind? : Terminal → Option Kind
  | identifier => some .identifier
  | privateName => some .privatePropertyIdentifier
  | number => some .numberLiteral
  | doubleQuotedText => some .stringFragment
  | singleQuotedText => some .stringFragment
  | escape => some .escapeSequence
  | templateText => some .stringFragment
  | regexPattern => some .regexPattern
  | regexFlags => some .regexFlags
  | hashBang => some .hashBangLine
  | comment => some .comment
  | htmlComment => some .htmlComment
  | word "this" => some .thisExpression
  | word "super" => some .superExpression
  | word "true" => some .trueLiteral
  | word "false" => some .falseLiteral
  | word "null" => some .nullLiteral
  | word "undefined" => some .undefinedLiteral
  | sign "?." => some .optionalChain
  | _ => none

end Terminal

/-- What terminals are put together to. -/
inductive Phrase where
  /-- A whole script, above the root of its tree. -/
  | script
  /-- A phrase that becomes a node. -/
  | node (kind : Kind)
  | exportName
  | declaration
  | fromClause
  | statement
  | forHeader
  | expression
  | primaryExpression
  | augmentedTarget
  | initializer
  | destructuringPattern
  | decoratorMember
  | decoratorCall
  | pattern
  | propertyName
  /-- One or more statements. -/
  | statements
  /-- One or more decorators. -/
  | decorators
  /-- Further names of an export list, each behind a comma. -/
  | exportSpecifiers
  /-- Further names of an import list, each behind a comma. -/
  | importSpecifiers
  /-- Further declarators, each behind a comma. -/
  | declarators
  /-- One or more cases of a switch. -/
  | switchCases
  /-- Further members of an object, each behind a comma. -/
  | objectMembers
  /-- Further members of an object pattern, each behind a comma. -/
  | objectPatternMembers
  /-- Further elements of an array or of arguments, each behind a comma. -/
  | elements
  /-- Further elements of an array pattern, each behind a comma. -/
  | patternElements
  /-- Further expressions, each behind a comma. -/
  | furtherExpressions
  /-- The parts of a string between double quotes. -/
  | doubleQuotedParts
  /-- The parts of a string between single quotes. -/
  | singleQuotedParts
  | templateParts
  | classMembers
  /-- Further parameters, each behind a comma. -/
  | parameters
  deriving DecidableEq, Hashable, Repr, Inhabited

namespace Phrase

/-- The kind of the nodes that a phrase gets, if it gets nodes. -/
def kind? : Phrase → Option Kind
  | .node kind => some kind
  | _ => none

/-- Whether a phrase is a row of equal parts, which may be cut in two
anywhere. -/
def isSeries : Phrase → Bool
  | statements | decorators | exportSpecifiers | importSpecifiers | declarators | switchCases
  | objectMembers | objectPatternMembers | elements | patternElements | furtherExpressions
  | doubleQuotedParts | singleQuotedParts | templateParts | classMembers | parameters => true
  | _ => false

end Phrase

/-- A terminal or a phrase. -/
inductive Symbol where
  | terminal (terminal : Terminal)
  | phrase (phrase : Phrase)
  deriving DecidableEq, Hashable, Repr, Inhabited

namespace Symbol

/-- The kind of the nodes that a symbol gets, if it gets nodes. -/
def kind? : Symbol → Option Kind
  | .terminal part => part.kind?
  | .phrase part => part.kind?

end Symbol

end Script

end AssertLint
