import AssertLint.Fix
import AssertLint.Scope.Analysis
import AssertLint.Text.Template

/-!
# Rules

A rule listens to queries.  For every node that a query captures, the rule looks
at the node in its file and reports what it finds.  A report becomes a
violation: its message is filled in, and its edits are merged into a fix.
-/

namespace AssertLint

/-- A source with its tree and its scopes, all that a rule sees of a file. -/
structure File where
  source : Source
  tree : Node
  scopes : ScopeTable

/-- The file of a source and its tree. -/
def File.ofTree (source : Source) (tree : Node) : File :=
  ⟨source, tree, ScopeTable.ofTree source tree⟩

/-- What a rule has to say about a node.  Edits are given when the rule proposes
a fix, even if there are none. -/
structure Report where
  node : Cursor
  messageId : String
  data : List (String × String)
  edits : Option (List Edit)

/-- A query, the capture listened to, and what the rule does with a captured
node.  The capture may be left out when the query has only one. -/
structure Listener where
  query : String
  captureName : Option String
  respond : File → Cursor → List Report

/-- What is known about a rule apart from what it does. -/
structure RuleInfo where
  name : String
  description : String
  docsUrl : String
  fixable : Bool
  /-- The message templates by their identifiers. -/
  messages : List (String × String)
  deriving DecidableEq, Repr

/-- A rule. -/
structure Rule where
  info : RuleInfo
  listeners : List Listener

/-- A named collection of rules. -/
structure Plugin where
  name : String
  rules : List Rule

/-- The first rule of a given name. -/
def Plugin.rule? (plugin : Plugin) (name : String) : Option Rule :=
  plugin.rules.find? (·.info.name = name)

/-- A finding of a rule in a file. -/
structure Violation where
  ruleName : String
  messageId : String
  message : String
  span : Span
  start : Position
  stop : Position
  kind : Kind
  fix : Option Fix
  deriving DecidableEq, Repr

namespace RuleInfo

/-- The message of a report: its template filled in, or the identifier if there
is no template. -/
def message (info : RuleInfo) (report : Report) : String :=
  match info.messages.lookup report.messageId with
  | some template => Template.fill template report.data
  | none => report.messageId

/-- The fix of a report.  There is none if the rule is not fixable, if the report
proposes none, or if its edits cannot be merged. -/
def fix? (info : RuleInfo) (source : Source) (report : Report) : Option Fix :=
  if info.fixable then
    report.edits.bind fun edits => (Fix.ofEdits source edits).toOption
  else
    none

/-- The violation that a report becomes. -/
def violation (info : RuleInfo) (source : Source) (report : Report) : Violation :=
  { ruleName := info.name
    messageId := report.messageId
    message := info.message report
    span := report.node.span
    start := source.position report.node.span.start
    stop := source.position report.node.span.stop
    kind := report.node.kind
    fix := info.fix? source report }

end RuleInfo

end AssertLint
