import AssertLint.Linter
import AssertLint.Text.Document

/-!
# The output of a run

The outcome of a run is written as a JSON document, as the fixed source, or as
one line for each violation.
-/

namespace AssertLint

/-- The document of a range. -/
def Span.document (span : Span) : Document :=
  .object [("start", .number span.start), ("end", .number span.stop)]

/-- The document of a fix. -/
def Fix.document (fix : Fix) : Document :=
  .object [("range", fix.span.document), ("text", .text fix.text)]

/-- The document of a violation. -/
def Violation.document (violation : Violation) : Document :=
  .object
    [("rule_name", .text violation.ruleName),
      ("message_id", .text violation.messageId),
      ("message", .text violation.message),
      ("start_byte", .number violation.span.start),
      ("end_byte", .number violation.span.stop),
      ("line", .number violation.start.line),
      ("column", .number violation.start.column),
      ("end_line", .number violation.stop.line),
      ("end_column", .number violation.stop.column),
      ("kind", .text violation.kind.name),
      ("fix", (violation.fix.map Fix.document).getD .null)]

/-- The document of the outcome of a run. -/
def Linter.Outcome.document (outcome : Linter.Outcome) : Document :=
  .object
    [("violations", .array (outcome.violations.map Violation.document)),
      ("fixed_source", .optionalText (outcome.fixed.map String.ofList))]

/-- The line about a violation in the file at a path. -/
def Violation.line (path : String) (violation : Violation) : String :=
  path ++ ":" ++ toString violation.start.line ++ ":" ++ toString violation.start.column ++ ": " ++
    violation.message ++ " (" ++ violation.ruleName ++ ")" ++
    (if violation.fix.isSome then " [fixable]" else "") ++ "\n"

/-- What is printed about a run: the document, the fixed source, or lines about
the violations. -/
def Linter.Outcome.printed (path : String) (asDocument : Bool) (outcome : Linter.Outcome) :
    String :=
  if asDocument then
    outcome.document.render ++ "\n"
  else
    match outcome.fixed with
    | some source => String.ofList source
    | none => String.join (outcome.violations.map (Violation.line path))

/-- The description of a rule by its name. -/
def Rule.summary (rule : Rule) : String :=
  "Rule \x7b name: " ++ Document.quoted rule.info.name ++ " \x7d"

/-- The description of a plugin by its name and its rules. -/
def Plugin.summary (plugin : Plugin) : String :=
  "Plugin \x7b name: " ++ Document.quoted plugin.name ++ ", rules: [" ++
    ", ".intercalate (plugin.rules.map Rule.summary) ++ "] \x7d"

end AssertLint
