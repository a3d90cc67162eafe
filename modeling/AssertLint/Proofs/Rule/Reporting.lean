import AssertLint.Proofs.Linter.Calls
import AssertLint.Proofs.Rule.Fixes
import AssertLint.Proofs.Rule.Visible

/-!
# What the rule on regular expressions reports

The query of the rule describes the callee of a call, the rest is decided by the
rule itself.  A call may meet the query in several ways, but it is handed to the
rule once, so each finding that is visible to the rule is reported exactly once.
-/

namespace AssertLint

namespace RegexAssertion

open Cursor (contentChildren mainChildren)

/-- A violation says what the rule has to say about a node. -/
structure IsViolationOn (file : File) (node : Cursor) (violation : Violation) : Prop where
  ruleName_eq : violation.ruleName = "prefer-t-regex"
  span_eq : violation.span = node.span
  start_eq : violation.start = file.source.position node.span.start
  stop_eq : violation.stop = file.source.position node.span.stop
  kind_eq : violation.kind = node.kind
  messageId_eq : violation.messageId = "prefer_t_regex"
  proposal : ∃ replacement edits, replacement? file node = some (replacement, edits) ∧
    violation.message = "Prefer using the `t." ++ replacement.name ++ "()` assertion." ∧
    violation.fix = (Fix.ofEdits file.source edits).toOption

theorem isReported_iff {source : Source} {tree : Node} {call : Cursor}
    (lies : Cursor.LiesIn tree call) :
    isReported (File.ofTree source tree) call = true ↔
      AssertsMatch contentChildren contentChildren (File.ofTree source tree) call ∧
        (ScopeTable.ofTree source tree).isInTest call = true := by
  rw [isReported, Bool.and_eq_true, Option.isSome_iff_exists, exists_replacement?_iff lies]
  rfl

/-- A report of the rule becomes a violation on the node that it is about. -/
theorem isViolationOn_of_mem_respond {file : File} {call : Cursor} {report : Report}
    (member : report ∈ respond file call) :
    IsViolationOn file report.node (info.violation file.source report) := by
  have filled (replacement : Replacement) :
      Template.fill "Prefer using the `t.\x7b\x7bassertion\x7d\x7d()` assertion."
          [("assertion", replacement.name)] =
        "Prefer using the `t." ++ replacement.name ++ "()` assertion." := by
    cases replacement <;> decide +kernel
  obtain ⟨replacement, edits, found, rfl⟩ := exists_eq_of_mem_respond member
  exact
    { ruleName_eq := rfl
      span_eq := rfl
      start_eq := rfl
      stop_eq := rfl
      kind_eq := rfl
      messageId_eq := rfl
      proposal := ⟨replacement, edits, found, filled replacement, rfl⟩ }

theorem flatMap_ite_eq_filter (cursors : List Cursor) (selected : Cursor → Bool) :
    (cursors.flatMap fun cursor => if selected cursor then [cursor] else []) =
      cursors.filter selected := by
  induction cursors with
  | nil => rfl
  | cons cursor rest ih =>
      rw [List.flatMap_cons, ih, List.filter_cons]
      split <;> rfl

section Lint

variable {reader : QueryReader} {read : ReadQuery} (readsRule : ReadsRule reader read)
  (parse : Source → Node) (source : Source)

include readsRule

/-- The rule is called once for every node that meets its query. -/
theorem exists_calls_perm :
    ∃ calls : List Cursor,
      (calls.map Cursor.address).Nodup ∧
      (∀ node, node ∈ calls ↔ node ∈ (parse source).cursors ∧ IsDescribed source node) ∧
      (Linter.lint parse [compiledListener read] source).calls.Perm
        (calls.map (⟨compiledListener read, ·⟩)) := by
  obtain ⟨calls, times, distinct, isCall, repeated, captured⟩ :=
    readsRule.captures source (parse source)
  exact ⟨calls, distinct, isCall, Linter.callsFor_singleton_perm distinct repeated captured⟩

/-- The rule reports each of its nodes once. -/
theorem exists_reported_perm :
    ∃ nodes : List Cursor,
      (nodes.map Cursor.address).Nodup ∧
      (∀ node, node ∈ nodes ↔ (node ∈ (parse source).cursors ∧ IsDescribed source node) ∧
        isReported (File.ofTree source (parse source)) node = true) ∧
      (((Linter.lint parse [compiledListener read] source).reports
        (File.ofTree source (parse source))).map Report.node).Perm nodes := by
  obtain ⟨calls, distinct, isCall, callsPerm⟩ := exists_calls_perm readsRule parse source
  refine ⟨calls.filter (isReported (File.ofTree source (parse source))),
    ((List.filter_sublist).map Cursor.address).nodup distinct, ?_, ?_⟩
  · intro node
    rw [List.mem_filter, isCall]
  · have reportsPerm := (callsPerm.flatMap_right fun call =>
      call.listener.respond (File.ofTree source (parse source)) call.node).map Report.node
    refine reportsPerm.trans (List.Perm.of_eq ?_)
    rw [List.flatMap_map, List.map_flatMap, ← flatMap_ite_eq_filter]
    simp only [compiledListener, map_node_respond]

theorem violations_perm :
    (Linter.lint parse [compiledListener read] source).violations.Perm
      (((Linter.lint parse [compiledListener read] source).reports
        (File.ofTree source (parse source))).map (info.violation source)) := by
  obtain ⟨calls, -, -, callsPerm⟩ := exists_calls_perm readsRule parse source
  have ownListener : ∀ call ∈ (Linter.lint parse [compiledListener read] source).calls,
      call.listener = compiledListener read := by
    intro call member
    obtain ⟨node, -, rfl⟩ := List.mem_map.mp (callsPerm.mem_iff.mp member)
    rfl
  refine (stableSort_perm Linter.mayPrecede _).trans (List.Perm.of_eq ?_)
  rw [Lint.reports, List.map_flatMap]
  apply List.flatMap_congr
  intro call member
  rw [Linter.Call.violations, ownListener call member]
  rfl

theorem isViolationOn_of_mem_reports {report : Report}
    (member : report ∈ (Linter.lint parse [compiledListener read] source).reports
      (File.ofTree source (parse source))) :
    IsViolationOn (File.ofTree source (parse source)) report.node
      (info.violation source report) := by
  obtain ⟨calls, -, -, callsPerm⟩ := exists_calls_perm readsRule parse source
  obtain ⟨call, callMem, reportMem⟩ := List.mem_flatMap.mp member
  obtain ⟨node, -, rfl⟩ := List.mem_map.mp (callsPerm.mem_iff.mp callMem)
  exact isViolationOn_of_mem_respond reportMem

/-- The violations stand one by one for the nodes that are reported. -/
theorem exists_forall₂_isViolationOn :
    ∃ nodes : List Cursor,
      List.Forall₂ (IsViolationOn (File.ofTree source (parse source))) nodes
        (Linter.lint parse [compiledListener read] source).violations ∧
      (nodes.map Cursor.address).Nodup ∧
      ∀ node, node ∈ nodes ↔ (node ∈ (parse source).cursors ∧ IsDescribed source node) ∧
        isReported (File.ofTree source (parse source)) node = true := by
  obtain ⟨nodes, distinct, isReported, nodesPerm⟩ := exists_reported_perm readsRule parse source
  have becomes : List.Forall₂ (fun violation report => violation = info.violation source report)
      (((Linter.lint parse [compiledListener read] source).reports
        (File.ofTree source (parse source))).map (info.violation source))
      ((Linter.lint parse [compiledListener read] source).reports
        (File.ofTree source (parse source))) := by
    rw [List.forall₂_map_left_iff]
    exact List.forall₂_same.mpr fun _ _ => rfl
  obtain ⟨reports, related, reportsPerm⟩ :=
    List.perm_comp_forall₂ (violations_perm readsRule parse source) becomes
  have sameNodes := (reportsPerm.map Report.node).trans nodesPerm
  refine ⟨reports.map Report.node, ?_, (sameNodes.map Cursor.address).nodup_iff.mpr distinct,
    fun node => sameNodes.mem_iff.trans (isReported node)⟩
  have violationsEq : (Linter.lint parse [compiledListener read] source).violations =
      reports.map (info.violation source) := by
    rw [← List.forall₂_eq_eq_eq, List.forall₂_map_right_iff]
    exact related
  rw [violationsEq, List.forall₂_map_left_iff, List.forall₂_map_right_iff, List.forall₂_same]
  intro report member
  exact isViolationOn_of_mem_reports readsRule parse source (reportsPerm.mem_iff.mp member)

end Lint

/-- The violations of a run with only this rule stand one by one for different nodes, each
with the data of its node.  A node is among them exactly if it is a call that meets the
query, reads as an assertion on a match and is found to be in a test.  Apart from calls of
methods that have a comment in the place of their arguments, these are the findings that
are visible to the rule.  Where the callee of a finding and its property are the only ones, as the
grammar has it, the property is neither computed nor private and has the name of an
assertion. -/
theorem reports_visible_findings_once (parse : Source → Node) {reader : QueryReader}
    {read : ReadQuery} {plugin : Plugin} {config : Config} (source : Source)
    (readsRule : ReadsRule reader read)
    (enabled : Linter.enabledRules plugin config = .ok [rule]) :
    ∃ outcome nodes,
      Linter.run parse reader plugin config source = .ok outcome ∧
      List.Forall₂ (IsViolationOn (File.ofTree source (parse source))) nodes
        outcome.violations ∧
      (nodes.map Cursor.address).Nodup ∧
      (∀ node ∈ nodes, node ∈ (parse source).cursors) ∧
      ∀ node ∈ (parse source).cursors,
        (node ∈ nodes ↔
          IsDescribed source node ∧
            AssertsMatch contentChildren contentChildren (File.ofTree source (parse source)) node ∧
            (ScopeTable.ofTree source (parse source)).isInTest node = true) ∧
        (IsFinding (File.ofTree source (parse source)) node ∧
            IsVisible (File.ofTree source (parse source)) node ↔
          node ∈ nodes ∧
            ∀ argument, LooksAt mainChildren source node argument → ¬ LacksArgument argument) ∧
        (IsFinding (File.ofTree source (parse source)) node →
          node.HasAtMostOne .callee →
          (∀ callee ∈ node.field? .callee, callee.HasAtMostOne .property) →
          ∃ callee property,
            node.field? .callee = some callee ∧ callee.kind = .memberExpression ∧
              callee.field? .property = some property ∧ property.kind = .propertyIdentifier ∧
              property.text source ∈ assertionNames) := by
  obtain ⟨nodes, related, distinct, isReported⟩ :=
    exists_forall₂_isViolationOn readsRule parse source
  refine ⟨_, nodes, Linter.run_eq_ok enabled readsRule.compileAll_rule, ?_, distinct,
    fun node member => ((isReported node).mp member).1.1, ?_⟩
  · rw [Linter.violations_runListeners]
    exact related
  · intro node inTree
    have asRead : node ∈ nodes ↔ IsDescribed source node ∧
        AssertsMatch contentChildren contentChildren (File.ofTree source (parse source)) node ∧
        (ScopeTable.ofTree source (parse source)).isInTest node = true := by
      rw [isReported, and_iff_right inTree, isReported_iff (Cursor.mem_cursors_iff.mp inTree)]
    refine ⟨asRead, ?_, fun finding => finding.isDescribed.callee_eq⟩
    rw [asRead]
    exact isFinding_and_isVisible_iff

/-- The assertion of the sample is reported once, which makes it a visible finding whose
property has the name of an assertion. -/
theorem sample_reports_once :
    ∃ outcome node,
      Linter.run sampleParse Query.reader assertionRules ⟨["prefer-t-regex"], false⟩
          sampleSource = .ok outcome ∧
        node.span = ⟨25, 47⟩ ∧
        List.Forall₂ (IsViolationOn (File.ofTree sampleSource (sampleParse sampleSource))) [node]
          outcome.violations ∧
        IsFinding (File.ofTree sampleSource (sampleParse sampleSource)) node ∧
        IsVisible (File.ofTree sampleSource (sampleParse sampleSource)) node ∧
        ∃ callee property,
          node.field? .callee = some callee ∧ callee.kind = .memberExpression ∧
            callee.field? .property = some property ∧ property.kind = .propertyIdentifier ∧
            property.text sampleSource ∈ assertionNames := by
  have enabled :
      Linter.enabledRules assertionRules ⟨["prefer-t-regex"], false⟩ = .ok [rule] := rfl
  obtain ⟨outcome, nodes, ran, related, -, inTree, reported⟩ :=
    reports_visible_findings_once sampleParse sampleSource readsRule_reader enabled
  have spans : outcome.violations.map Violation.span = [⟨25, 47⟩] := by
    rw [Linter.run_eq_ok enabled readsRule_reader.compileAll_rule, Except.ok.injEq] at ran
    rw [← ran]
    decide +kernel
  obtain ⟨violation, violationsEq, spanEq⟩ := List.map_eq_singleton_iff.mp spans
  rw [violationsEq] at related
  obtain ⟨node, others, isViolation, noOthers, rfl⟩ := List.forall₂_cons_right_iff.mp related
  obtain rfl := List.forall₂_nil_right_iff.mp noOthers
  have nodeIn := inTree node (by simp)
  have nodeSpan : node.span = ⟨25, 47⟩ := isViolation.span_eq.symm.trans spanEq
  have plain : ∀ node ∈ (sampleParse sampleSource).cursors, node.kind.isAside = false := by
    decide +kernel
  have single : ∀ node ∈ (sampleParse sampleSource).cursors, node.span = ⟨25, 47⟩ →
      node.HasAtMostOne .callee ∧
        ∀ callee ∈ node.field? .callee, callee.HasAtMostOne .property := by
    decide +kernel
  obtain ⟨-, visibleIff, calleeEq⟩ := reported node nodeIn
  obtain ⟨finding, visible⟩ := visibleIff.mpr ⟨by simp, fun argument looked =>
    not_lacksArgument_of_plain plain (looked.liesIn (Cursor.mem_cursors_iff.mp nodeIn))⟩
  obtain ⟨oneCallee, oneProperty⟩ := single node nodeIn nodeSpan
  exact ⟨outcome, node, ran, nodeSpan, violationsEq ▸ related, finding, visible,
    calleeEq finding oneCallee oneProperty⟩

/-! ## A finding that is not visible -/

/-- A test with an assertion whose argument comes behind a comment in the style of web
pages. -/
def obscuredSource : Source := "const a=require('ava');a(t=>t.true(<!-- c\n/b/.test(s)))".toList

/-- The tree of the test. -/
def obscuredTree : Node :=
  .ofChildren .program 0 55
    [.ofChildren .lexicalDeclaration 0 23
      [.ofChildren .variableDeclarator 6 22
        [Node.inField (.leaf .identifier 6 7) .name,
          Node.inField
            (.ofChildren .callExpression 8 22
              [Node.inField (.leaf .identifier 8 15) .callee,
                Node.inField
                  (.ofChildren .arguments 15 22
                    [.ofChildren .stringLiteral 16 21 [.leaf .stringFragment 17 20]])
                  .arguments])
            .value]],
      .ofChildren .expressionStatement 23 55
        [.ofChildren .callExpression 23 55
          [Node.inField (.leaf .identifier 23 24) .callee,
            Node.inField
              (.ofChildren .arguments 24 55
                [.ofChildren .arrowFunction 25 54
                  [Node.inField (.leaf .identifier 25 26) .parameter,
                    Node.inField
                      (nestedCall (.leaf .identifier 28 29) ⟨30, 34⟩ 54
                        [.leaf .htmlComment 35 41,
                          nestedCall (.leaf .regexLiteral 42 45) ⟨46, 50⟩ 53
                            [.leaf .identifier 51 52]])
                      .body]])
              .arguments]]]

/-- The first node of a kind in the tree, from an offset on. -/
abbrev obscuredNode : Kind → Nat → Cursor := Cursor.firstFrom obscuredTree

theorem isDescribed_obscured : IsDescribed obscuredSource (obscuredNode .callExpression 28) := by
  refine ⟨rfl, obscuredNode .memberExpression 28, ?_, rfl, obscuredNode .propertyIdentifier 30,
    ?_, rfl, by decide +kernel⟩
  · exact List.mem_of_mem_head? (Cursor.field?_eq_head?_childrenIn _ _ ▸ rfl)
  · exact List.mem_of_mem_head? (Cursor.field?_eq_head?_childrenIn _ _ ▸ rfl)

theorem isMethodCall_obscured :
    IsMethodCall mainChildren obscuredSource (obscuredNode .callExpression 42) "test"
      (obscuredNode .regexLiteral 42) (obscuredNode .identifier 51) where
  isCall := rfl
  callee := ⟨obscuredNode .memberExpression 42, obscuredNode .propertyIdentifier 46, rfl, rfl, rfl,
    rfl, by decide +kernel, rfl⟩
  arguments := ⟨[], ⟨obscuredNode .arguments 50, rfl, rfl, rfl⟩, by decide +kernel⟩

theorem isReadAs_obscured :
    IsReadAs mainChildren obscuredSource (obscuredNode .callExpression 28) "true"
      [obscuredNode .callExpression 42] where
  callee := ⟨obscuredNode .memberExpression 28, obscuredNode .propertyIdentifier 30,
    obscuredNode .identifier 28, rfl, rfl, by decide +kernel, .single rfl, rfl, by decide +kernel⟩
  list := ⟨obscuredNode .arguments 34, rfl, rfl, rfl⟩
  unspread := by decide +kernel

theorem isFinding_obscured :
    IsFinding (File.ofTree obscuredSource obscuredTree) (obscuredNode .callExpression 28) where
  isDescribed := isDescribed_obscured
  asserts := by
    have isMatch : IsMatch mainChildren mainChildren obscuredSource
        (obscuredNode .callExpression 42) (obscuredNode .identifier 51)
        (obscuredNode .regexLiteral 42) :=
      Or.inl ⟨_, .refl, isMethodCall_obscured⟩
    have isRegex : (File.ofTree obscuredSource obscuredTree).scopes.classify
        (obscuredNode .regexLiteral 42) = .regex := by
      decide +kernel
    exact ⟨"true", _, isReadAs_obscured, .boolean .true isMatch isRegex⟩
  inTest := by
    have inTest : (File.ofTree obscuredSource obscuredTree).scopes.isInTest
        (obscuredNode .callExpression 28) = true := by
      decide +kernel
    obtain ⟨function, above, start, isTest, -⟩ := ScopeTable.isInTest_iff.mp inTest
    exact ⟨function, above, start, isTest⟩

/-- The finding behind the comment is not reported. -/
theorem obscured_finding_missed :
    ∃ outcome,
      Linter.run (fun _ => obscuredTree) Query.reader assertionRules ⟨["prefer-t-regex"], false⟩
          obscuredSource = .ok outcome ∧
        outcome.violations = [] ∧
        ∃ node ∈ obscuredTree.cursors, node.span = ⟨28, 54⟩ ∧
          IsFinding (File.ofTree obscuredSource obscuredTree) node := by
  have enabled :
      Linter.enabledRules assertionRules ⟨["prefer-t-regex"], false⟩ = .ok [rule] := rfl
  refine ⟨_, Linter.run_eq_ok enabled readsRule_reader.compileAll_rule, ?_,
    obscuredNode .callExpression 28, Cursor.firstFrom_mem _ _ _, rfl, isFinding_obscured⟩
  rw [Linter.violations_runListeners, ← List.isEmpty_iff]
  decide +kernel

end RegexAssertion

end AssertLint
