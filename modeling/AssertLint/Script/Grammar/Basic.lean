import AssertLint.Script.Form

/-!
# Forms that many phrases share

Names, the ends of statements, and what can stand on the left of an
assignment.
-/

namespace AssertLint

namespace Script

namespace Grammar

open Form

/-- A phrase with its form. -/
abbrev Rule := Phrase × Form

/-- A name that is no word of the language. -/
def plainName : Form := token .identifier

/-- A word of the language that may also be a name. -/
def reservedName : Form := oneOf ["get", "set", "async", "static", "export", "let"]

/-- A name of any sort. -/
def anyName : Form := oneOf [plainName, reservedName]

/-- A word of the language that is used as a name. -/
def shownReservedName : Form := shownAs .identifier reservedName

/-- The name of a value. -/
def valueName : Form := oneOf ["undefined", plainName]

/-- The end of a statement. -/
def semicolon : Form := oneOf [token .lineEnd, ";"]

/-- One expression, or several with commas between them. -/
def expressions : Form := oneOf [part .expression, node .sequenceExpression]

/-- What a value can be assigned to. -/
def target : Form :=
  oneOf
    [node .memberExpression, node .subscriptExpression, valueName, shownReservedName,
      part .destructuringPattern]

/-- What a declaration can name. -/
def declaredName : Form := oneOf [plainName, part .destructuringPattern]

/-- A parameter of a function. -/
def parameter : Form := oneOf [part .pattern, node .assignmentPattern]

/-- A member of an object. -/
def objectMember : Form :=
  oneOf
    [node .pair, node .spreadElement, node .methodDefinition,
      shownAs .shorthandPropertyIdentifier anyName]

/-- A member of an object pattern. -/
def objectPatternMember : Form :=
  oneOf
    [node .pairPattern, node .restPattern, node .objectAssignmentPattern,
      shownAs .shorthandPropertyIdentifierPattern anyName]

/-- An element of an array, or an argument of a call. -/
def element : Form := oneOf [part .expression, node .spreadElement]

/-- The parameters of a function. -/
def signature : Form := within .parameters (node .formalParameters)

/-- The block of a function. -/
def functionBody : Form := within .body (node .statementBlock)

end Grammar

end Script

end AssertLint
