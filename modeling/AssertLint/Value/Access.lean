import AssertLint.Tree.Chain
import AssertLint.Tree.Node

/-!
# Shapes of expressions

Small questions about an expression that rules ask again and again: what it is
without its parentheses, which object its member accesses start from, what the
arguments of a call are, and which text a plain string literal has.
-/

namespace AssertLint

namespace Cursor

/-- The expression in parentheses. -/
def parenthesizedContent? (cursor : Cursor) : Option Cursor :=
  if cursor.kind = .parenthesizedExpression then cursor.firstContent? else none

/-- The expression without the parentheses around it. -/
def withoutParentheses (cursor : Cursor) : Cursor :=
  chainEnd parenthesizedContent? cursor.node.size cursor

/-- The object of a member access, or the expression in parentheses. -/
def object? (cursor : Cursor) : Option Cursor :=
  if cursor.kind = .memberExpression then
    cursor.field? .object
  else
    cursor.parenthesizedContent?

/-- The expression that a chain of member accesses starts from. -/
def rootObject (cursor : Cursor) : Cursor :=
  chainEnd object? cursor.node.size cursor

/-- The name that a chain of member accesses starts from. -/
def rootName? (cursor : Cursor) (source : Source) : Option String :=
  if cursor.rootObject.kind = .identifier then
    some (cursor.rootObject.text source)
  else
    none

/-- The name of the property of a member access, unless it is private. -/
def propertyName? (cursor : Cursor) (source : Source) : Option String :=
  if cursor.kind = .memberExpression then
    (cursor.field? .property).bind fun property =>
      if property.kind = .propertyIdentifier then some (property.text source) else none
  else
    none

/-- The arguments of a call or a construction.  A template and a construction
without parentheses have none. -/
def callArguments? (cursor : Cursor) : Option (List Cursor) :=
  (cursor.field? .arguments).bind fun arguments =>
    if arguments.kind = .arguments then some arguments.contentChildren else none

/-- The text of a string literal without escapes. -/
def plainString? (cursor : Cursor) (source : Source) : Option String :=
  if cursor.kind = .stringLiteral then
    match cursor.contentChildren with
    | [] => some ""
    | [part] => if part.kind = .stringFragment then some (part.text source) else none
    | _ => none
  else
    none

end Cursor

end AssertLint
