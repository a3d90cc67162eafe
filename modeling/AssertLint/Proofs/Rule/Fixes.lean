import AssertLint.Proofs.Fix.Merge
import AssertLint.Proofs.Linter.Violations
import AssertLint.Proofs.Rule.Query
import AssertLint.Proofs.Rule.Shape
import AssertLint.Proofs.Tree.Placement

/-!
# The fixes of the rule on regular expressions

In a well-formed tree the name of an assertion and its arguments follow each
other, so the edits of the rule can be merged on every call that it reports.
The main result of this file is that each violation of the rule carries a fix
inside the reported call, and that the fix replaces the name and the arguments
in question and nothing else.
-/

namespace AssertLint

namespace RegexAssertion

section Placement

variable {source : Source} {tree : Node} {call : Cursor}

/-- A node below a call that can be replaced without touching anything around the
call. -/
structure LiesInside (source : Source) (call node : Cursor) : Prop where
  isValid : source.isValid node.span = true
  start_le : call.span.start ≤ node.span.start
  stop_le : node.span.stop ≤ call.span.stop

private theorem liesInside_of_mem_children {node child : Cursor}
    (placed : call.node.WellPlaced source) (nodeMem : node ∈ call.children)
    (childMem : child ∈ node.children) : LiesInside source call child := by
  have nodePlaced := Cursor.wellPlaced_of_mem_children placed nodeMem
  have nodeWithin := Cursor.within_of_mem_children placed nodeMem
  have childWithin := Cursor.within_of_mem_children nodePlaced childMem
  exact
    { isValid := (Cursor.wellPlaced_of_mem_children nodePlaced childMem).isValid
      start_le := Nat.le_trans nodeWithin.1 childWithin.1
      stop_le := Nat.le_trans childWithin.2 nodeWithin.2 }

theorem liesInside_property {callee property : Cursor} (placed : call.node.WellPlaced source)
    (calleeFound : call.field? .callee = some callee)
    (propertyFound : callee.field? .property = some property) :
    LiesInside source call property :=
  liesInside_of_mem_children placed (Cursor.mem_children_of_field? calleeFound)
    (Cursor.mem_children_of_field? propertyFound)

theorem liesInside_argument {arguments : List Cursor} {argument : Cursor}
    (placed : call.node.WellPlaced source)
    (hasArguments : call.HasArguments Cursor.mainChildren arguments)
    (member : argument ∈ arguments) : LiesInside source call argument := by
  obtain ⟨list, listFound, -, rfl⟩ := hasArguments
  exact liesInside_of_mem_children placed (Cursor.mem_children_of_field? listFound)
    (Cursor.mem_mainChildren_iff.mp member).1

/-- The arguments of a call follow each other. -/
theorem pairwise_arguments {arguments : List Cursor} (placed : call.node.WellPlaced source)
    (hasArguments : call.HasArguments Cursor.mainChildren arguments) :
    arguments.Pairwise fun first second => first.span.stop ≤ second.span.start := by
  obtain ⟨list, listFound, -, rfl⟩ := hasArguments
  have listPlaced :=
    Cursor.wellPlaced_of_mem_children placed (Cursor.mem_children_of_field? listFound)
  exact (Cursor.pairwise_children listPlaced).filter _

/-- The name of an assertion ends before its arguments start. -/
theorem property_stop_le_argument_start (wellFormed : tree.WellFormed source)
    (inTree : call ∈ tree.cursors) (isCall : call.kind = .callExpression)
    {callee property argument : Cursor} {arguments : List Cursor}
    (calleeFound : call.field? .callee = some callee)
    (propertyFound : callee.field? .property = some property)
    (hasArguments : call.HasArguments Cursor.mainChildren arguments)
    (member : argument ∈ arguments) :
    property.span.stop ≤ argument.span.start := by
  have placed := (Cursor.mem_cursors_iff.mp inTree).wellPlaced wellFormed.placed
  obtain ⟨list, listFound, -, rfl⟩ := hasArguments
  have calleePlaced :=
    Cursor.wellPlaced_of_mem_children placed (Cursor.mem_children_of_field? calleeFound)
  have listPlaced :=
    Cursor.wellPlaced_of_mem_children placed (Cursor.mem_children_of_field? listFound)
  calc
    property.span.stop ≤ callee.span.stop :=
      (Cursor.within_of_mem_children calleePlaced
        (Cursor.mem_children_of_field? propertyFound)).2
    _ ≤ list.span.start := wellFormed.calleeFirst call inTree isCall callee calleeFound list
      listFound
    _ ≤ argument.span.start :=
      (Cursor.within_of_mem_children listPlaced
        (Cursor.mem_mainChildren_iff.mp member).1).1

/-- The edits that rewrite a call of a well-formed tree are valid, follow each
other and stay inside the call. -/
theorem Rewrites.chained {edits : List Edit} (rewrites : Rewrites source call edits)
    (wellFormed : tree.WellFormed source) (inTree : call ∈ tree.cursors)
    (isCall : call.kind = .callExpression) :
    Edit.Chained call.span.start edits ∧
      ∀ edit ∈ edits, source.isValid edit.span = true ∧ edit.span.stop ≤ call.span.stop := by
  have placed := (Cursor.mem_cursors_iff.mp inTree).wellPlaced wellFormed.placed
  cases rewrites with
  | boolean calleeFound propertyFound asserts arguments isMatch =>
      have property := liesInside_property placed calleeFound propertyFound
      have first := liesInside_argument placed arguments (List.mem_cons_self)
      have before := property_stop_le_argument_start wellFormed inTree isCall calleeFound
        propertyFound arguments (List.mem_cons_self)
      refine ⟨⟨property.start_le, before, trivial⟩, ?_⟩
      simp only [List.mem_cons, List.not_mem_nil, or_false, forall_eq_or_imp, forall_eq]
      exact ⟨⟨property.isValid, property.stop_le⟩, first.isValid, first.stop_le⟩
  | equality calleeFound propertyFound asserts arguments compares =>
      have property := liesInside_property placed calleeFound propertyFound
      have first := liesInside_argument placed arguments (List.mem_cons_self)
      have second := liesInside_argument placed arguments
        (List.mem_cons_of_mem _ (List.mem_cons_self))
      have before := property_stop_le_argument_start wellFormed inTree isCall calleeFound
        propertyFound arguments (List.mem_cons_self)
      have ordered := (List.pairwise_cons.mp (pairwise_arguments placed arguments)).1 _
        (List.mem_cons_self)
      refine ⟨⟨property.start_le, before, ordered, trivial⟩, ?_⟩
      simp only [List.mem_cons, List.not_mem_nil, or_false, forall_eq_or_imp, forall_eq]
      exact ⟨⟨property.isValid, property.stop_le⟩, ⟨first.isValid, first.stop_le⟩,
        second.isValid, second.stop_le⟩

end Placement

/-- The names of the assertions that are replaced and of those that take their
place start with different letters. -/
theorem heads_differ_of_asserts {name : String} {replacement : Replacement}
    (asserts : AssertsBoolean name replacement ∨ AssertsEquality name) :
    ∃ old new, name.toList.head? = some old ∧ replacement.name.toList.head? = some new ∧
      old ≠ new := by
  rcases asserts with asserts | asserts
  · cases asserts <;> exact ⟨_, _, rfl, rfl, by decide⟩
  · cases asserts <;> cases replacement <;> exact ⟨_, _, rfl, rfl, by decide⟩

/-- A rewritten call starts anew at the name of the assertion. -/
theorem Rewrites.exists_first {source : Source} {call : Cursor} {edits : List Edit}
    (rewrites : Rewrites source call edits) :
    ∃ first rest, edits = first :: rest ∧ ∃ old new,
      (source.slice first.span).head? = some old ∧ first.text.toList.head? = some new ∧
        old ≠ new := by
  cases rewrites with
  | boolean calleeFound propertyFound asserts arguments isMatch =>
      obtain ⟨old, new, oldHead, newHead, differ⟩ := heads_differ_of_asserts (Or.inl asserts)
      refine ⟨_, _, rfl, old, new, ?_, newHead, differ⟩
      simpa [Cursor.text, Source.text] using oldHead
  | @equality _ _ _ _ _ _ _ replacement calleeFound propertyFound asserts arguments compares =>
      obtain ⟨old, new, oldHead, newHead, differ⟩ :=
        heads_differ_of_asserts (Or.inr asserts : AssertsBoolean _ replacement ∨ _)
      refine ⟨_, _, rfl, old, new, ?_, newHead, differ⟩
      simpa [Cursor.text, Source.text] using oldHead

/-- What is known about the fix that rewrites a call. -/
structure IsFixOf (source : Source) (call : Cursor) (edits : List Edit) (fix : Fix) : Prop where
  merged : Fix.ofEdits source edits = .ok fix
  isValid : source.isValid fix.span = true
  start_le : call.span.start ≤ fix.span.start
  stop_le : fix.span.stop ≤ call.span.stop
  replaced : Replaced source edits (Fix.applyAll source [fix])
  startsAnew : ∃ old new, (source.slice fix.span).head? = some old ∧
    fix.text.toList.head? = some new ∧ old ≠ new

/-- The edits that rewrite a call of a well-formed tree can be merged. -/
theorem Rewrites.exists_isFixOf {source : Source} {tree : Node} {call : Cursor}
    {edits : List Edit} (rewrites : Rewrites source call edits)
    (wellFormed : tree.WellFormed source) (inTree : call ∈ tree.cursors)
    (isCall : call.kind = .callExpression) : ∃ fix, IsFixOf source call edits fix := by
  obtain ⟨chained, inside⟩ := rewrites.chained wellFormed inTree isCall
  obtain ⟨first, rest, rfl, old, new, oldHead, newHead, differ⟩ := rewrites.exists_first
  have valid : ∀ edit ∈ first :: rest, source.isValid edit.span = true :=
    fun edit member => (inside edit member).1
  obtain ⟨fix, merged, fixValid, startEq, stopEq, textEq, replaced⟩ :=
    Fix.exists_ofEdits_of_chained (chained.weaken (Nat.zero_le _)) valid
  obtain ⟨last, lastMem, lastEq⟩ := Edit.exists_lastStop_eq call.span.start first rest
  rw [Edit.lastStop] at lastEq
  refine ⟨fix, merged, fixValid, ?_, ?_, replaced, old, new, ?_, ?_, differ⟩
  · rw [startEq]
    exact chained.1
  · rw [stopEq, lastEq]
    exact (inside last lastMem).2
  · refine Source.head?_slice_of_start_eq (valid first (by simp)) fixValid startEq.symm ?_
      oldHead
    rw [stopEq]
    exact Edit.le_lastStop_of_chained chained.2
      (fun edit member => valid edit (List.mem_cons_of_mem first member))
  · rw [textEq, List.head?_append, newHead, Option.some_or]

/-- A report of the rule is about the call, with the replacement that it proposes. -/
theorem exists_eq_of_mem_respond {file : File} {call : Cursor} {report : Report}
    (member : report ∈ respond file call) :
    ∃ replacement edits, replacement? file call = some (replacement, edits) ∧
      report = ⟨call, messageId, [("assertion", replacement.name)], some edits⟩ := by
  unfold respond at member
  split at member
  next replacement edits found =>
    split at member
    next => exact ⟨replacement, edits, found, List.mem_singleton.mp member⟩
    next => simp at member
  next => simp at member

/-- Every violation of the rule carries the fix that rewrites the reported call. -/
theorem exists_isFixOf_of_mem_violations {parse : Source → Node} {reader : QueryReader}
    {read : ReadQuery} {source : Source} {violation : Violation}
    (readsRule : ReadsRule reader read) (wellFormed : (parse source).WellFormed source)
    (member : violation ∈ (Linter.lint parse [compiledListener read] source).violations) :
    ∃ call ∈ (parse source).cursors, ∃ edits fix,
      call.kind = .callExpression ∧ violation.span = call.span ∧ violation.fix = some fix ∧
        Rewrites source call edits ∧ IsFixOf source call edits fix := by
  obtain ⟨listener, listenerMem, call, captured, report, reportMem, rfl⟩ :=
    Linter.exists_report_of_mem_violations member
  obtain rfl := List.mem_singleton.mp listenerMem
  obtain ⟨inTree, isCall⟩ := readsRule.mem_cursors captured
  obtain ⟨replacement, edits, found, rfl⟩ := exists_eq_of_mem_respond reportMem
  have rewrites : Rewrites source call edits := rewrites_of_replacement? found
  obtain ⟨fix, isFix⟩ := rewrites.exists_isFixOf wellFormed inTree isCall
  exact ⟨call, inTree, edits, fix, isCall, rfl, congrArg Except.toOption isFix.merged, rewrites,
    isFix⟩

/-! ## A sample -/

/-- A test with an assertion that the rule reports. -/
def sampleSource : Source := "import a from 'ava';a(t=>t.is(/b/.test(s),true))".toList

/-- The test after the fix. -/
def sampleFixed : Source := "import a from 'ava';a(t=>t.regex(s,/b/))".toList

/-- The tree of a test file whose one test consists of an assertion that ends at
the given offset. -/
def sampleTree (stop : Nat) (assertion : Node) : Node :=
  .ofChildren .program 0 (stop + 1)
    [.ofChildren .importStatement 0 20
      [.ofChildren .importClause 7 8 [.leaf .identifier 7 8],
        Node.inField (.ofChildren .stringLiteral 14 19 [.leaf .stringFragment 15 18]) .source],
      .ofChildren .expressionStatement 20 (stop + 1)
        [.ofChildren .callExpression 20 (stop + 1)
          [Node.inField (.leaf .identifier 20 21) .callee,
            Node.inField
              (.ofChildren .arguments 21 (stop + 1)
                [.ofChildren .arrowFunction 22 stop
                  [Node.inField (.leaf .identifier 22 23) .parameter,
                    assertion.inField .body]])
              .arguments]]]

/-- A call of a method or of an assertion, from the object to the closing parenthesis. -/
def nestedCall (object : Node) (name : Span) (stop : Nat) (arguments : List Node) : Node :=
  .ofChildren .callExpression object.span.start stop
    [Node.inField
        (.ofChildren .memberExpression object.span.start name.stop
          [object.inField .object,
            Node.inField (.leaf .propertyIdentifier name.start name.stop) .property])
        .callee,
      Node.inField (.ofChildren .arguments name.stop stop arguments) .arguments]

/-- The reported assertion. -/
def sampleAssertion : Node :=
  .ofChildren .callExpression 25 47
    [Node.inField
        (.ofChildren .memberExpression 25 29
          [Node.inField (.leaf .identifier 25 26) .object,
            Node.inField (.leaf .propertyIdentifier 27 29) .property])
        .callee,
      Node.inField
        (.ofChildren .arguments 29 47
          [.ofChildren .callExpression 30 41
            [Node.inField
                (.ofChildren .memberExpression 30 38
                  [Node.inField (.leaf .regexLiteral 30 33) .object,
                    Node.inField (.leaf .propertyIdentifier 34 38) .property])
                .callee,
              Node.inField (.ofChildren .arguments 38 41 [.leaf .identifier 39 40]) .arguments],
            .leaf .trueLiteral 42 46])
        .arguments]

/-- The assertion that the fix leaves. -/
def sampleFixedAssertion : Node :=
  .ofChildren .callExpression 25 39
    [Node.inField
        (.ofChildren .memberExpression 25 32
          [Node.inField (.leaf .identifier 25 26) .object,
            Node.inField (.leaf .propertyIdentifier 27 32) .property])
        .callee,
      Node.inField
        (.ofChildren .arguments 32 39 [.leaf .identifier 33 34, .leaf .regexLiteral 35 38])
        .arguments]

/-- A parser that knows the sample and its fixed form. -/
def sampleParse (source : Source) : Node :=
  if source = sampleSource then sampleTree 47 sampleAssertion
  else if source = sampleFixed then sampleTree 39 sampleFixedAssertion
  else .leaf .program 0 source.byteLength

theorem wellFormed_sampleParse (source : Source) : (sampleParse source).WellFormed source := by
  unfold sampleParse
  split
  next isSample =>
    subst isSample
    decide +kernel
  next =>
    split
    next isFixed =>
      subst isFixed
      decide +kernel
    next => exact Node.wellFormed_leaf source

theorem sample_violations_ne_nil :
    (Linter.lint sampleParse [compiledListener callQuery.asRead] sampleSource).violations ≠ [] := by
  have nonempty : (Linter.lint sampleParse [compiledListener callQuery.asRead]
      sampleSource).violations.isEmpty = false := by
    decide +kernel
  simpa using nonempty

/-- Each violation of the rule carries a fix that lies inside the reported call and
replaces exactly the name of the assertion and the arguments in question. -/
theorem violation_has_exact_fix {parse : Source → Node} {reader : QueryReader} {read : ReadQuery}
    {plugin : Plugin} {config : Config} {source : Source} (readsRule : ReadsRule reader read)
    (enabled : Linter.enabledRules plugin config = .ok [rule])
    (wellFormed : (parse source).WellFormed source) :
    ∃ outcome, Linter.run parse reader plugin config source = .ok outcome ∧
      ∀ violation ∈ outcome.violations,
        ∃ call ∈ (parse source).cursors, ∃ edits fix,
          call.kind = .callExpression ∧ violation.span = call.span ∧
            violation.fix = some fix ∧
            call.span.start ≤ fix.span.start ∧ fix.span.stop ≤ call.span.stop ∧
            Rewrites source call edits ∧
            Replaced source edits (Fix.applyAll source [fix]) := by
  refine ⟨_, Linter.run_eq_ok enabled readsRule.compileAll_rule, ?_⟩
  intro violation member
  rw [Linter.violations_runListeners] at member
  obtain ⟨call, inTree, edits, fix, isCall, spanEq, fixEq, rewrites, isFix⟩ :=
    exists_isFixOf_of_mem_violations readsRule wellFormed member
  exact ⟨call, inTree, edits, fix, isCall, spanEq, fixEq, isFix.start_le, isFix.stop_le,
    rewrites, isFix.replaced⟩

theorem sample_violation_has_exact_fix :
    ∃ outcome,
      Linter.run sampleParse Query.reader assertionRules ⟨["prefer-t-regex"], false⟩ sampleSource =
          .ok outcome ∧
        outcome.violations ≠ [] ∧ ∀ violation ∈ outcome.violations, violation.fix ≠ none := by
  have enabled :
      Linter.enabledRules assertionRules ⟨["prefer-t-regex"], false⟩ = .ok [rule] := rfl
  obtain ⟨outcome, ran, fixes⟩ :=
    violation_has_exact_fix readsRule_reader enabled (wellFormed_sampleParse sampleSource)
  refine ⟨outcome, ran, ?_, ?_⟩
  · rw [Linter.run_eq_ok enabled readsRule_reader.compileAll_rule, Except.ok.injEq] at ran
    rw [← ran, Linter.violations_runListeners]
    exact sample_violations_ne_nil
  · intro violation member
    obtain ⟨-, -, -, fix, -, -, fixEq, -⟩ := fixes violation member
    simp [fixEq]

end RegexAssertion

end AssertLint
