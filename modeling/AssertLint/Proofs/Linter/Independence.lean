import AssertLint.Proofs.Linter.Calls
import AssertLint.Proofs.Linter.Compiled
import AssertLint.Proofs.Linter.FixLoop

/-!
# Rules do not interfere

Among the violations of all rules, those of one rule are what the rule finds by
itself.  Violations are ordered by range and then by the name of their rule, so
what each rule finds settles the whole list, and the order in which rules are
named does not show: neither in the violations nor, pass by pass, in the fixed
source.
-/

namespace AssertLint

namespace Linter

/-- What violations are ordered by. -/
def violationKey (violation : Violation) : ℕ ×ₗ ℕ ×ₗ String :=
  toLex (violation.span.start, toLex (violation.span.stop, violation.ruleName))

theorem violationKey_le_iff {first second : Violation} :
    violationKey first ≤ violationKey second ↔
      first.span.start < second.span.start ∨
        first.span.start = second.span.start ∧
          (first.span.stop < second.span.stop ∨
            first.span.stop = second.span.stop ∧ first.ruleName ≤ second.ruleName) := by
  simp only [violationKey, Prod.Lex.toLex_le_toLex]

theorem comparesBy_violationKey : ComparesBy mayPrecede violationKey := by
  intro first second
  rw [violationKey_le_iff, mayPrecede]
  split
  · next differ => simp [differ]
  · next same =>
      rw [not_not] at same
      split
      · next differ => simp [same, differ]
      · next sameStop =>
          rw [not_not] at sameStop
          simp [same, sameStop]

theorem ruleName_of_key_eq {violation : Violation} {key : ℕ ×ₗ ℕ ×ₗ String}
    (isKey : violationKey violation = key) : violation.ruleName = (ofLex (ofLex key).2).2 :=
  congrArg (fun value => (ofLex (ofLex value).2).2) isKey

/-! ## The violations of one rule -/

theorem filter_violations_call (file : File) (call : Call) (name : String) :
    (call.violations file).filter (fun violation => violation.ruleName = name) =
      if call.listener.info.name = name then call.violations file else [] := by
  have named : ∀ violation ∈ call.violations file,
      violation.ruleName = call.listener.info.name := by
    intro violation member
    obtain ⟨report, -, rfl⟩ := List.mem_map.mp member
    rfl
  split
  · next isName =>
      apply List.filter_eq_self.mpr
      intro violation member
      simp [named violation member, isName]
  · next isNot =>
      apply List.filter_eq_nil_iff.mpr
      intro violation member
      simp [named violation member, isNot]

theorem filter_flatMap_violations (file : File) (calls : List Call) (name : String) :
    (calls.flatMap (·.violations file)).filter (fun violation => violation.ruleName = name) =
      (calls.filter fun call => call.listener.info.name = name).flatMap (·.violations file) := by
  induction calls with
  | nil => rfl
  | cons call rest ih =>
      rw [List.flatMap_cons, List.filter_append, ih, filter_violations_call, List.filter_cons]
      by_cases isName : call.listener.info.name = name <;> simp [isName]

section Rules

variable {parse : Source → Node} {reader : QueryReader} {source : Source} {rules : List Rule}
  {listeners : List CompiledListener}

theorem staysInTree_of_compileAll (inTree : reader.StaysInTree)
    (compiled : compileAll reader rules = .ok listeners) (file : File) :
    ∀ listener ∈ listeners, StaysInTree file listener := by
  intro listener member
  obtain ⟨-, text, read⟩ := of_mem_compileAll compiled member
  exact inTree text listener.query read file.source file.tree listener.capture

/-- The violations of a rule among those of all rules are the ones of the rule by
itself. -/
theorem filter_violations_lint (inTree : reader.StaysInTree)
    (compiled : compileAll reader rules = .ok listeners)
    (distinct : (rules.map (·.info.name)).Nodup) {rule : Rule} (member : rule ∈ rules)
    {own : List CompiledListener}
    (isOwn : compileFrom reader rule.info 0 rule.listeners = .ok own) :
    (lint parse listeners source).violations.filter
        (fun violation => violation.ruleName = rule.info.name) =
      (lint parse own source).violations := by
  obtain ⟨before, own', after, rfl, isOwn', beforeDiffer, afterDiffer⟩ :=
    exists_parts_of_mem compiled distinct member
  obtain rfl : own = own' := Except.ok.inj (isOwn.symm.trans isOwn')
  have ownNamed : ∀ listener ∈ own, listener.info.name = rule.info.name := by
    intro listener listenerMem
    rw [(of_mem_compileFrom isOwn listener listenerMem).1]
  simp only [lint, Lint.ofCalls]
  rw [filter_stableSort comparesBy_violationKey, filter_flatMap_violations]
  congr 2
  apply filter_callsFor fun listener => decide (listener.info.name = rule.info.name)
  · simpa using ownNamed
  · simpa using beforeDiffer
  · simpa using afterDiffer
  · exact staysInTree_of_compileAll inTree compiled _

theorem exists_rule_of_mem_violations (compiled : compileAll reader rules = .ok listeners)
    {violation : Violation} (member : violation ∈ (lint parse listeners source).violations) :
    ∃ rule ∈ rules, violation.ruleName = rule.info.name := by
  obtain ⟨listener, listenerMem, node, -, report, -, rfl⟩ := exists_report_of_mem_violations member
  obtain ⟨⟨rule, ruleMem, infoEq⟩, -⟩ := of_mem_compileAll compiled listenerMem
  exact ⟨rule, ruleMem, congrArg RuleInfo.name infoEq⟩

end Rules

/-! ## The order of the rules -/

section Permuted

variable {parse : Source → Node} {reader : QueryReader} {source : Source}
  {rules rules' : List Rule}  {listeners listeners' : List CompiledListener}

theorem filter_violations_of_perm (parse : Source → Node) (source : Source)
    (inTree : reader.StaysInTree)
    (compiled : compileAll reader rules = .ok listeners)
    (compiled' : compileAll reader rules' = .ok listeners')
    (distinct : (rules.map (·.info.name)).Nodup) (permuted : rules'.Perm rules) (name : String) :
    (lint parse listeners' source).violations.filter (fun violation => violation.ruleName = name) =
      (lint parse listeners source).violations.filter
        fun violation => violation.ruleName = name := by
  have distinct' : (rules'.map (·.info.name)).Nodup :=
    (permuted.map (·.info.name)).nodup_iff.mpr distinct
  by_cases named : ∃ rule ∈ rules, rule.info.name = name
  · obtain ⟨rule, member, rfl⟩ := named
    obtain ⟨own, isOwn⟩ := exists_compileAll_iff.mp ⟨listeners, compiled⟩ rule member
    rw [filter_violations_lint inTree compiled distinct member isOwn,
      filter_violations_lint inTree compiled' distinct' (permuted.mem_iff.mpr member) isOwn]
  · -- No rule has the name, so neither list has an entry of it.
    have noneOf : ∀ {rules'' : List Rule} {listeners'' : List CompiledListener},
        rules''.Perm rules → compileAll reader rules'' = .ok listeners'' →
        (lint parse listeners'' source).violations.filter
          (fun violation => violation.ruleName = name) = [] := by
      intro rules'' listeners'' isPerm isCompiled
      apply List.filter_eq_nil_iff.mpr
      intro violation member
      obtain ⟨rule, ruleMem, nameEq⟩ := exists_rule_of_mem_violations isCompiled member
      rw [decide_eq_true_eq, nameEq]
      exact fun isName => named ⟨rule, isPerm.mem_iff.mp ruleMem, isName⟩
    rw [noneOf permuted compiled', noneOf (List.Perm.refl rules) compiled]

/-- What a lint finds does not depend on the order of the rules. -/
theorem violations_lint_of_perm (inTree : reader.StaysInTree)
    (compiled : compileAll reader rules = .ok listeners)
    (compiled' : compileAll reader rules' = .ok listeners')
    (distinct : (rules.map (·.info.name)).Nodup) (permuted : rules'.Perm rules) :
    (lint parse listeners' source).violations = (lint parse listeners source).violations := by
  apply eq_of_filter_key_eq (pairwise_stableSort comparesBy_violationKey _)
    (pairwise_stableSort comparesBy_violationKey _)
  intro key
  -- A key holds the name of a rule, so the entries of a key are entries of a rule.
  have throughName (violations : List Violation) :
      violations.filter (fun violation => violationKey violation = key) =
        (violations.filter fun violation => violation.ruleName = (ofLex (ofLex key).2).2).filter
          fun violation => violationKey violation = key := by
    rw [List.filter_filter]
    apply List.filter_congr
    intro violation _
    by_cases isKey : violationKey violation = key
    · simp [isKey, ruleName_of_key_eq isKey]
    · simp [isKey]
  have sameByName := filter_violations_of_perm parse source inTree compiled compiled' distinct
    permuted (ofLex (ofLex key).2).2
  calc (lint parse listeners' source).violations.filter
        (fun violation => violationKey violation = key)
      = ((lint parse listeners' source).violations.filter fun violation =>
          violation.ruleName = (ofLex (ofLex key).2).2).filter
            fun violation => violationKey violation = key := throughName _
    _ = ((lint parse listeners source).violations.filter fun violation =>
          violation.ruleName = (ofLex (ofLex key).2).2).filter
            fun violation => violationKey violation = key := by rw [sameByName]
    _ = (lint parse listeners source).violations.filter
          fun violation => violationKey violation = key := (throughName _).symm

theorem pass_eq_of_perm (inTree : reader.StaysInTree)
    (compiled : compileAll reader rules = .ok listeners)
    (compiled' : compileAll reader rules' = .ok listeners')
    (distinct : (rules.map (·.info.name)).Nodup) (permuted : rules'.Perm rules) :
    pass (lint parse listeners') = pass (lint parse listeners) := by
  funext text
  rw [pass, pass, Lint.fixes, Lint.fixes,
    violations_lint_of_perm inTree compiled compiled' distinct permuted]

theorem fixed_runListeners_of_perm (inTree : reader.StaysInTree)
    (compiled : compileAll reader rules = .ok listeners)
    (compiled' : compileAll reader rules' = .ok listeners')
    (distinct : (rules.map (·.info.name)).Nodup) (permuted : rules'.Perm rules) (fix : Bool) :
    (runListeners parse listeners' fix source).fixed =
      (runListeners parse listeners fix source).fixed := by
  cases fix with
  | false => rfl
  | true =>
      rw [fixed_runListeners, fixed_runListeners,
        pass_eq_of_perm inTree compiled compiled' distinct permuted]

end Permuted

/-! ## Runs -/

theorem exists_compiled_of_run_eq_ok {parse : Source → Node} {reader : QueryReader}
    {plugin : Plugin} {config : Config} {source : Source} {rules : List Rule} {outcome : Outcome}
    (enabled : enabledRules plugin config = .ok rules)
    (ran : run parse reader plugin config source = .ok outcome) :
    ∃ listeners, compileAll reader rules = .ok listeners ∧
      outcome = runListeners parse listeners config.fix source := by
  simp only [run, bind_eq_ok_iff, pure_eq_ok_iff] at ran
  obtain ⟨rules', enabled', listeners, compiled, rfl⟩ := ran
  obtain rfl : rules = rules' := Except.ok.inj (enabled.symm.trans enabled')
  exact ⟨listeners, compiled, rfl⟩

/-- In a run of rules with different names, the violations of each rule are those
that a run of this rule alone reports; and a run that names the rules in another
order reports the same violations and ends with the same source. -/
theorem run_rules_independent {parse : Source → Node} {reader : QueryReader} {plugin : Plugin}
    {config : Config} {source : Source} {rules : List Rule} {outcome : Outcome}
    (inTree : reader.StaysInTree)
    (enabled : enabledRules plugin config = .ok rules)
    (distinct : (rules.map (·.info.name)).Nodup)
    (ran : run parse reader plugin config source = .ok outcome) :
    (∀ rule ∈ rules, ∃ alone,
      run parse reader plugin ⟨[rule.info.name], config.fix⟩ source = .ok alone ∧
      outcome.violations.filter (fun violation => violation.ruleName = rule.info.name) =
        alone.violations) ∧
    ∀ names : List String, names.Perm config.rules → ∃ permuted,
      run parse reader plugin ⟨names, config.fix⟩ source = .ok permuted ∧
      permuted.violations = outcome.violations ∧ permuted.fixed = outcome.fixed := by
  obtain ⟨listeners, compiled, rfl⟩ := exists_compiled_of_run_eq_ok enabled ran
  have compiles := exists_compileAll_iff.mp ⟨listeners, compiled⟩
  constructor
  · intro rule member
    obtain ⟨own, isOwn⟩ := compiles rule member
    have found := rule?_name_of_mem enabled distinct member
    refine ⟨runListeners parse own config.fix source,
      run_eq_ok (enabledRules_singleton found config.fix) (compileAll_singleton_eq isOwn), ?_⟩
    rw [violations_runListeners, violations_runListeners]
    exact filter_violations_lint inTree compiled distinct member isOwn
  · intro names namesPerm
    obtain ⟨rules', enabled', permuted⟩ := exists_enabledRules_of_perm enabled namesPerm
    obtain ⟨listeners', compiled'⟩ := exists_compileAll_iff.mpr fun rule member =>
      compiles rule (permuted.mem_iff.mp member)
    refine ⟨runListeners parse listeners' config.fix source, run_eq_ok enabled' compiled', ?_, ?_⟩
    · rw [violations_runListeners, violations_runListeners]
      exact violations_lint_of_perm inTree compiled compiled' distinct permuted
    · exact fixed_runListeners_of_perm inTree compiled compiled' distinct permuted config.fix

theorem sample_rules_independent :
    ∃ outcome alone permuted,
      run sampleParse Query.reader samplePlugin ⟨["append", "prepend"], true⟩ ['x'] = .ok outcome ∧
      run sampleParse Query.reader samplePlugin ⟨["append"], true⟩ ['x'] = .ok alone ∧
      run sampleParse Query.reader samplePlugin ⟨["prepend", "append"], true⟩ ['x'] = .ok permuted ∧
      outcome.violations.filter (fun violation => violation.ruleName = "append") =
        alone.violations ∧
      outcome.violations.map (·.ruleName) = ["append", "prepend"] ∧
      permuted.violations = outcome.violations ∧ permuted.fixed = outcome.fixed := by
  have enabled : enabledRules samplePlugin ⟨["append", "prepend"], true⟩ =
      .ok samplePlugin.rules := rfl
  have compiled : compileAll Query.reader samplePlugin.rules =
      .ok [sampleListener "append" .nodeEnd "a", sampleListener "prepend" .nodeStart "b"] :=
    compileAll_cons_eq_ok_iff.mpr ⟨_, _, compileFrom_sampleRule "append" .nodeEnd "a",
      compileAll_singleton_eq (compileFrom_sampleRule "prepend" .nodeStart "b"), rfl⟩
  have distinct : (samplePlugin.rules.map (·.info.name)).Nodup := by decide
  have ran :
      run sampleParse Query.reader samplePlugin ⟨["append", "prepend"], true⟩ ['x'] = .ok _ :=
    run_eq_ok enabled compiled
  obtain ⟨alike, reordered⟩ := run_rules_independent Query.staysInTree_reader enabled distinct ran
  obtain ⟨alone, ranAlone, same⟩ :=
    alike (sampleRule "append" .nodeEnd "a") (by simp [samplePlugin])
  obtain ⟨permuted, ranPermuted, sameViolations, sameFixed⟩ :=
    reordered ["prepend", "append"] (List.Perm.swap "append" "prepend" [])
  refine ⟨_, alone, permuted, ran, ranAlone, ranPermuted, same, ?_, sameViolations, sameFixed⟩
  decide +kernel

end Linter

end AssertLint
