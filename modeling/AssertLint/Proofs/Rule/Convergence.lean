import AssertLint.Proofs.Linter.FixLoop
import AssertLint.Proofs.Rule.Fixes

/-!
# Fixing ends with a clean source

A pass of the rule on regular expressions that finds anything changes the
source, since every violation carries a fix and every fix starts with another
letter than the text that it replaces.  So the loop of fixes can only come to
rest at a source without violations.
-/

namespace AssertLint

namespace RegexAssertion

/-- A pass that finds violations changes the source. -/
theorem pass_ne_self {parse : Source → Node} {reader : QueryReader} {read : ReadQuery}
    {source : Source} (readsRule : ReadsRule reader read)
    (wellFormed : (parse source).WellFormed source)
    (found : (Linter.lint parse [compiledListener read] source).violations ≠ []) :
    Linter.pass (Linter.lint parse [compiledListener read]) source ≠ source := by
  have fixOf : ∀ fix ∈ (Linter.lint parse [compiledListener read] source).fixes,
      ∃ call edits, IsFixOf source call edits fix := by
    intro fix member
    obtain ⟨violation, violationMem, fixEq⟩ := List.mem_filterMap.mp member
    obtain ⟨call, -, edits, fix', -, -, fixEq', -, isFix⟩ :=
      exists_isFixOf_of_mem_violations readsRule wellFormed violationMem
    obtain rfl := Option.some.inj (fixEq'.symm.trans fixEq)
    exact ⟨call, edits, isFix⟩
  apply Fix.applyAll_ne_self
  · obtain ⟨violation, others, violationsEq⟩ := List.exists_cons_of_ne_nil found
    have violationMem :
        violation ∈ (Linter.lint parse [compiledListener read] source).violations := by
      simp [violationsEq]
    obtain ⟨-, -, -, fix, -, -, fixEq, -⟩ :=
      exists_isFixOf_of_mem_violations readsRule wellFormed violationMem
    exact List.ne_nil_of_mem (List.mem_filterMap.mpr ⟨violation, violationMem, fixEq⟩)
  · intro fix member
    obtain ⟨call, edits, isFix⟩ := fixOf fix member
    exact isFix.isValid
  · intro fix member
    obtain ⟨call, edits, isFix⟩ := fixOf fix member
    exact isFix.startsAnew

/-- A run that fixes with only this rule makes ten passes or comes to rest.  Every
pass that finds violations changes the source; and if not all ten passes did, the
source that the run ends with has no violations. -/
theorem fix_run_ends_clean {parse : Source → Node} {reader : QueryReader} {read : ReadQuery}
    {plugin : Plugin} {config : Config} (readsRule : ReadsRule reader read)
    (enabled : Linter.enabledRules plugin config = .ok [rule]) (fixing : config.fix = true)
    (wellFormed : ∀ text, (parse text).WellFormed text) (source : Source) :
    ∃ listeners outcome final,
      Linter.compileAll reader [rule] = .ok listeners ∧
        Linter.run parse reader plugin config source = .ok outcome ∧
        outcome.fixed = some final ∧
        final = (Linter.pass (Linter.lint parse listeners))^[Linter.maxPasses] source ∧
        (∀ start, (Linter.lint parse listeners start).violations ≠ [] →
          Linter.pass (Linter.lint parse listeners) start ≠ start) ∧
        (Linter.changes (Linter.lint parse listeners) Linter.maxPasses source <
            Linter.maxPasses →
          (Linter.lint parse listeners final).violations = []) := by
  refine ⟨[compiledListener read], _, _, readsRule.compileAll_rule,
    Linter.run_eq_ok enabled readsRule.compileAll_rule, ?_, rfl, ?_, ?_⟩
  · rw [fixing]
    exact Linter.fixed_runListeners parse [compiledListener read] source
  · intro start found
    exact pass_ne_self readsRule (wellFormed start) found
  · intro few
    by_contra found
    exact pass_ne_self readsRule (wellFormed _) found
      (Linter.pass_iterate_eq_self_of_changes_lt few)

private theorem pass_sampleSource :
    Linter.pass (Linter.lint sampleParse [compiledListener callQuery.asRead]) sampleSource =
      sampleFixed := by
  decide +kernel

private theorem pass_sampleFixed :
    Linter.pass (Linter.lint sampleParse [compiledListener callQuery.asRead]) sampleFixed =
      sampleFixed := by
  decide +kernel

theorem sample_fix_run_ends_clean :
    ∃ outcome,
      Linter.run sampleParse Query.reader assertionRules ⟨["prefer-t-regex"], true⟩ sampleSource =
          .ok outcome ∧
        outcome.fixed = some sampleFixed ∧
        (Linter.lint sampleParse [compiledListener callQuery.asRead] sampleFixed).violations =
          [] := by
  have enabled :
      Linter.enabledRules assertionRules ⟨["prefer-t-regex"], true⟩ = .ok [rule] := rfl
  have settled :
      (Linter.pass (Linter.lint sampleParse [compiledListener callQuery.asRead]))^[Linter.maxPasses]
        sampleSource = sampleFixed := by
    rw [show Linter.maxPasses = 9 + 1 from rfl, Function.iterate_succ_apply,
      pass_sampleSource, Function.iterate_fixed pass_sampleFixed]
  have few :
      Linter.changes (Linter.lint sampleParse [compiledListener callQuery.asRead])
        Linter.maxPasses sampleSource < Linter.maxPasses := by
    have differ : sampleFixed ≠ sampleSource := by decide
    simp [Linter.changes, Linter.maxPasses, pass_sampleSource, pass_sampleFixed, differ]
  obtain ⟨listeners, outcome, final, compiled, ran, fixed, finalEq, -, clean⟩ :=
    fix_run_ends_clean readsRule_reader enabled rfl wellFormed_sampleParse sampleSource
  obtain rfl : [compiledListener callQuery.asRead] = listeners :=
    Except.ok.inj (readsRule_reader.compileAll_rule.symm.trans compiled)
  rw [settled] at finalEq
  subst finalEq
  exact ⟨outcome, ran, fixed, clean few⟩

end RegexAssertion

end AssertLint
