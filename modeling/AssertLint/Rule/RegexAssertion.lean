import AssertLint.Rule.Basic
import AssertLint.TestFile

/-!
# The rule on assertions about regular expressions

An assertion that checks the outcome of matching a text against a regular
expression is better written with the assertion made for it, which shows the
text and the expression when it fails.  The rule finds assertions on a boolean
(`t.true(re.test(s))`) and on equality with one (`t.is(re.test(s), true)`) and
proposes the replacement.
-/

namespace AssertLint

namespace RegexAssertion

/-- The assertion to use instead. -/
inductive Replacement where
  | regex
  | notRegex
  deriving DecidableEq, Repr

/-- The name of the assertion. -/
def Replacement.name : Replacement → String
  | regex => "regex"
  | notRegex => "notRegex"

/-- An assertion that can be replaced: one on a single boolean, which determines
the replacement, or one on the equality of two values. -/
inductive Assertion where
  | boolean (replacement : Replacement)
  | equality
  deriving DecidableEq, Repr

/-- The assertion of a name. -/
def Assertion.ofName? : String → Option Assertion
  | "true" => some (.boolean .regex)
  | "truthy" => some (.boolean .regex)
  | "false" => some (.boolean .notRegex)
  | "falsy" => some (.boolean .notRegex)
  | "is" => some .equality
  | "deepEqual" => some .equality
  | _ => none

/-- A method that matches a text against a regular expression.  One is a method
of the expression, two are methods of the text. -/
inductive Method where
  | test
  | find
  | search
  deriving DecidableEq, Repr

/-- The method of a name. -/
def Method.ofName? : String → Option Method
  | "test" => some .test
  | "match" => some .find
  | "search" => some .search
  | _ => none

/-- A call of one of the methods: the object, and the first argument if there is
one. -/
structure MethodCall where
  method : Method
  object : Cursor
  argument : Option Cursor

/-- Whether an argument list can be read in place: nothing is spread in it. -/
def isPlain (arguments : List Cursor) : Bool :=
  arguments.all (·.kind ≠ .spreadElement)

/-- The method call that an expression is, up to parentheses. -/
def methodCall? (source : Source) (expression : Cursor) : Option MethodCall :=
  let call := expression.withoutParentheses
  if call.kind = .callExpression then do
    let callee ← call.field? .callee
    let method ← (callee.propertyName? source).bind Method.ofName?
    let object ← callee.field? .object
    let arguments ← call.callArguments?
    if isPlain arguments then some ⟨method, object, arguments.head?⟩ else none
  else
    none

/-- The text and the regular expression of a method call, if both are there. -/
def MethodCall.textAndPattern? (call : MethodCall) : Option (Cursor × Cursor) :=
  call.argument.map fun argument =>
    match call.method with
    | .test => (argument, call.object)
    | .find | .search => (call.object, argument)

/-- The replacement of a node by a text. -/
def replace (node : Cursor) (text : String) : Edit := ⟨node.span, text⟩

/-- The edits to the arguments of an assertion on a boolean. -/
def booleanEdits? (file : File) (arguments : List Cursor) : Option (List Edit) := do
  let argument ← arguments.head?
  let call ← methodCall? file.source argument
  let (text, pattern) ← call.textAndPattern?
  if file.scopes.isRegex pattern then
    some [replace argument (text.text file.source ++ ", " ++ pattern.text file.source)]
  else
    none

/-- The replacement for an assertion that compares with an expression. -/
def replacementFor? (expected : Cursor) : Option Replacement :=
  match expected.withoutParentheses.kind with
  | .trueLiteral => some .regex
  | .falseLiteral => some .notRegex
  | _ => none

/-- The side of an equality that holds a regular expression, and the other one.
There is none if both sides or no side hold one. -/
def sides? (file : File) (first second : Cursor) : Option (Cursor × Cursor) :=
  match file.scopes.isRegex first, file.scopes.isRegex second with
  | true, false => some (first, second)
  | false, true => some (second, first)
  | _, _ => none

/-- The replacement for an assertion on equality, and the edits to its
arguments. -/
def equalityEdits? (file : File) (arguments : List Cursor) :
    Option (Replacement × List Edit) :=
  match arguments with
  | first :: second :: _ => do
      let (matching, expected) ← sides? file first second
      let replacement ← replacementFor? expected
      let call ← methodCall? file.source matching
      if call.method = .test then
        let text ← call.argument
        some (replacement,
          [replace first (text.text file.source), replace second (call.object.text file.source)])
      else
        none
  | _ => none

/-- The name of the object that provides the assertions. -/
def assertionObject : String := "t"

/-- The replacement for a call and the edits to its arguments. -/
def argumentEdits? (file : File) (assertion : Assertion) (arguments : List Cursor) :
    Option (Replacement × List Edit) :=
  match assertion with
  | .boolean replacement => (booleanEdits? file arguments).map (replacement, ·)
  | .equality => equalityEdits? file arguments

/-- The replacement for a call that is an assertion on the outcome of matching a
regular expression, and all edits that make it. -/
def replacement? (file : File) (call : Cursor) : Option (Replacement × List Edit) := do
  let callee ← call.field? .callee
  if callee.rootName? file.source = some assertionObject then
    let property ← callee.field? .property
    let assertion ← Assertion.ofName? (property.text file.source)
    let arguments ← call.callArguments?
    if isPlain arguments then
      let (replacement, edits) ← argumentEdits? file assertion arguments
      some (replacement, replace property replacement.name :: edits)
    else
      none
  else
    none

/-- The identifier of the message. -/
def messageId : String := "prefer_t_regex"

/-- What the rule reports about a call. -/
def respond (file : File) (call : Cursor) : List Report :=
  match replacement? file call with
  | some (replacement, edits) =>
      if file.scopes.isTestFile && file.scopes.isInTest call then
        [{ node := call
           messageId := messageId
           data := [("assertion", replacement.name)]
           edits := some edits }]
      else
        []
  | none => []

/-- The parts of the text of the query. -/
def queryParts : List String :=
  ["(call_expression\n",
    "              function: (member_expression\n",
    "                property: (property_identifier) @assertion ",
    "(#match? @assertion \"^(?:true|false|truthy|falsy|is|deepEqual)$\")\n",
    "              )\n",
    "            ) @call_expression"]

/-- The calls that the rule looks at. -/
def query : String := String.join queryParts

/-- What is known about the rule. -/
def info : RuleInfo :=
  { name := "prefer-t-regex"
    description := "Prefer using `t.regex()` to test regular expressions."
    docsUrl :=
      "https://github.com/avajs/eslint-plugin-ava/blob/main/docs/rules/prefer-t-regex.md"
    fixable := true
    messages :=
      [(messageId, "Prefer using the `t.\x7b\x7bassertion\x7d\x7d()` assertion.")] }

/-- The rule. -/
def rule : Rule :=
  { info := info
    listeners := [⟨query, some "call_expression", respond⟩] }

end RegexAssertion

/-- The rules of the library. -/
def assertionRules : Plugin := ⟨"ava", [RegexAssertion.rule]⟩

end AssertLint
