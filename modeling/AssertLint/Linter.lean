import AssertLint.Query.Engine
import AssertLint.Query.Fault
import AssertLint.Rule.Basic

/-!
# Linting and fixing

A run enables rules, compiles the queries of their listeners, and lints the
source.  To lint is to hand every captured node to its listener, outer nodes
before inner ones and in the order of the source, and to put the violations in
order.  To fix is to apply the fixes of a lint and to lint again, until nothing
changes or a bound is reached.  How a source becomes a tree and how queries are
read is left to the caller.
-/

namespace AssertLint

/-- Which rules to run, all of them if none is named, and whether to fix. -/
structure Config where
  rules : List String
  fix : Bool
  deriving DecidableEq, Repr

/-- Why a run cannot start. -/
inductive LintError where
  | unknownRule (name : String)
  | faultyQuery (rule query : String) (fault : Query.Fault)
  | missingCapture (rule : String)
  deriving DecidableEq, Repr

/-- The wording of each cause. -/
def LintError.message : LintError → String
  | unknownRule name => "unknown rule: " ++ name
  | faultyQuery rule query fault =>
      "invalid listener query in rule " ++ rule ++ ": " ++ fault.message query
  | missingCapture rule =>
      "listener query in rule " ++ rule ++ " doesn't say which capture to listen to"

/-- A listener with its query read and its capture determined. -/
structure CompiledListener where
  info : RuleInfo
  /-- The place of the listener among those of its rule. -/
  index : Nat
  respond : File → Cursor → List Report
  query : ReadQuery
  capture : String

namespace Linter

/-- The rules to run. -/
def enabledRules (plugin : Plugin) (config : Config) : Except LintError (List Rule) :=
  if config.rules.isEmpty then
    .ok plugin.rules
  else
    config.rules.mapM fun name =>
      match plugin.rule? name with
      | some rule => .ok rule
      | none => .error (.unknownRule name)

/-- The capture that a listener listens to. -/
def listenedCapture? (query : ReadQuery) : Option String → Option String
  | some name => if query.captureNames.contains name then some name else none
  | none =>
      match query.captureNames with
      | [name] => some name
      | _ => none

/-- Compiles the listener at a place of a rule. -/
def compileListener (reader : QueryReader) (info : RuleInfo) (index : Nat) (listener : Listener) :
    Except LintError CompiledListener :=
  match reader listener.query with
  | .error fault => .error (.faultyQuery info.name listener.query fault)
  | .ok query =>
      match listenedCapture? query listener.captureName with
      | some capture => .ok ⟨info, index, listener.respond, query, capture⟩
      | none => .error (.missingCapture info.name)

/-- Compiles the listeners of a rule from a place on. -/
def compileFrom (reader : QueryReader) (info : RuleInfo) :
    Nat → List Listener → Except LintError (List CompiledListener)
  | _, [] => .ok []
  | index, listener :: rest => do
      let first ← compileListener reader info index listener
      let others ← compileFrom reader info (index + 1) rest
      return first :: others

/-- Compiles the listeners of all rules, in order. -/
def compileAll (reader : QueryReader) : List Rule → Except LintError (List CompiledListener)
  | [] => .ok []
  | rule :: rest => do
      let first ← compileFrom reader rule.info 0 rule.listeners
      let others ← compileAll reader rest
      return first ++ others

/-- A captured node and the place of the listener among all listeners. -/
structure Match where
  node : Cursor
  listener : Nat

namespace Match

/-- Whether two matches hand the same node to the same listener. -/
def same (first second : Match) : Bool :=
  decide (first.node.address = second.node.address) && decide (first.listener = second.listener)

/-- The order of matches: by start, then outer nodes before inner ones, then by
listener. -/
def mayPrecede (first second : Match) : Bool :=
  if first.node.span.start ≠ second.node.span.start then
    first.node.span.start < second.node.span.start
  else if first.node.span.stop ≠ second.node.span.stop then
    second.node.span.stop < first.node.span.stop
  else
    first.listener ≤ second.listener

/-- Drops every match that is the same as the one before it. -/
def dropRepeated : List Match → List Match
  | [] => []
  | first :: rest =>
      match dropRepeated rest with
      | [] => [first]
      | second :: others =>
          if first.same second then second :: others else first :: second :: others

/-- Puts matches in order and drops repetitions. -/
def inOrder (found : List Match) : List Match :=
  dropRepeated (stableSort mayPrecede found)

end Match

/-- The captures of all listeners, listener by listener. -/
def captures (file : File) (listeners : List CompiledListener) : List Match :=
  (listeners.mapIdx fun index listener =>
    (listener.query.capturedNodes file.source file.tree listener.capture).map
      (⟨·, index⟩)).flatten

/-- A node handed to a listener. -/
structure Call where
  listener : CompiledListener
  node : Cursor

namespace Call

/-- The violations that a call reports. -/
def violations (file : File) (call : Call) : List Violation :=
  (call.listener.respond file call.node).map (call.listener.info.violation file.source)

end Call

/-- The calls to make for matches, in order. -/
def callsFor (listeners : List CompiledListener) (found : List Match) : List Call :=
  (Match.inOrder found).filterMap fun entry =>
    listeners[entry.listener]?.map (⟨·, entry.node⟩)

/-- The order of violations: by start, then by end, then by the name of the
rule. -/
def mayPrecede (first second : Violation) : Bool :=
  if first.span.start ≠ second.span.start then
    first.span.start < second.span.start
  else if first.span.stop ≠ second.span.stop then
    first.span.stop < second.span.stop
  else
    first.ruleName ≤ second.ruleName

end Linter

/-- The outcome of linting a source once: the calls made and the violations
found, both in order. -/
structure Lint where
  calls : List Linter.Call
  violations : List Violation

namespace Lint

/-- The outcome of making calls in a file. -/
def ofCalls (file : File) (calls : List Linter.Call) : Lint :=
  ⟨calls, stableSort Linter.mayPrecede (calls.flatMap (·.violations file))⟩

/-- The fixes of the violations. -/
def fixes (lint : Lint) : List Fix := lint.violations.filterMap Violation.fix

end Lint

namespace Linter

/-- Lints a source. -/
def lint (parse : Source → Node) (listeners : List CompiledListener) (source : Source) : Lint :=
  let file := File.ofTree source (parse source)
  Lint.ofCalls file (callsFor listeners (captures file listeners))

/-- The greatest number of passes that a run makes. -/
def maxPasses : Nat := 10

/-- Applies fixes and lints again, for at most the given number of passes.  The
result holds the last source and the outcomes of the lints on the way. -/
def fixFrom (lint : Source → Lint) : Nat → Source → List Fix → Source × List Lint
  | 0, source, _ => (source, [])
  | remaining + 1, source, fixes =>
      if fixes.isEmpty then
        (source, [])
      else
        let following := Fix.applyAll source fixes
        if following = source then
          (source, [])
        else if remaining = 0 then
          (following, [])
        else
          let outcome := lint following
          let (final, later) := fixFrom lint remaining following outcome.fixes
          (final, outcome :: later)

/-- The outcome of a run: the violations of the source as given, the source
after all fixes if they were asked for, and every lint made. -/
structure Outcome where
  violations : List Violation
  fixed : Option Source
  lints : List Lint

/-- Runs compiled listeners over a source. -/
def runListeners (parse : Source → Node) (listeners : List CompiledListener) (fix : Bool)
    (source : Source) : Outcome :=
  let first := lint parse listeners source
  if fix then
    let (final, later) := fixFrom (lint parse listeners) maxPasses source first.fixes
    ⟨first.violations, some final, first :: later⟩
  else
    ⟨first.violations, none, [first]⟩

/-- Runs the rules of a plugin over a source. -/
def run (parse : Source → Node) (reader : QueryReader) (plugin : Plugin) (config : Config)
    (source : Source) : Except LintError Outcome := do
  let rules ← enabledRules plugin config
  let listeners ← compileAll reader rules
  return runListeners parse listeners config.fix source

end Linter

end AssertLint
