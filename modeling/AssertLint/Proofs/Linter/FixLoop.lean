import AssertLint.Proofs.Linter.Compiled
import AssertLint.Proofs.Linter.Violations
import Mathlib.Logic.Function.Iterate

/-!
# The loop of fixes

A pass applies the fixes of a lint of the source it starts from.  The loop
carries the fixes along, stops early in two places and leaves out the last lint.
None of this shows in the source that it ends with: it is the source after the
full number of passes.  What does show is how often the loop lints, once for the
source as given and once after every pass that changes the text, except that a
tenth change is not looked at again.
-/

namespace AssertLint

namespace Fix

/-- Without fixes a pass changes nothing. -/
@[simp]
theorem applyAll_nil (source : Source) : applyAll source [] = source := by
  cases source <;> rfl

end Fix

namespace Linter

/-- The source after a pass with the fixes of a lint. -/
def pass (lint : Source → Lint) (source : Source) : Source :=
  Fix.applyAll source (lint source).fixes

/-- How many of a number of passes from a source on change the text. -/
def changes (lint : Source → Lint) : Nat → Source → Nat
  | 0, _ => 0
  | remaining + 1, source =>
      (if pass lint source = source then 0 else 1) +
        changes lint remaining (pass lint source)

theorem fixFrom_nil (lint : Source → Lint) (remaining : Nat) (source : Source) :
    fixFrom lint remaining source [] = (source, []) := by
  cases remaining <;> rfl

/-- One round of the loop with the fixes that it carries. -/
theorem fixFrom_succ_of_ne_nil {lint : Source → Lint} {remaining : Nat} {source : Source}
    {fixes : List Fix} (nonempty : fixes ≠ []) :
    fixFrom lint (remaining + 1) source fixes =
      if Fix.applyAll source fixes = source then (source, [])
      else if remaining = 0 then (Fix.applyAll source fixes, [])
      else
        ((fixFrom lint remaining (Fix.applyAll source fixes)
            (lint (Fix.applyAll source fixes)).fixes).1,
          lint (Fix.applyAll source fixes) ::
            (fixFrom lint remaining (Fix.applyAll source fixes)
              (lint (Fix.applyAll source fixes)).fixes).2) := by
  rw [fixFrom, if_neg (by simpa using nonempty)]

/-- One round of the loop.  Without fixes nothing changes, so the two early ends are
one. -/
theorem fixFrom_succ (lint : Source → Lint) (remaining : Nat) (source : Source) :
    fixFrom lint (remaining + 1) source (lint source).fixes =
      if pass lint source = source then (source, [])
      else if remaining = 0 then (pass lint source, [])
      else
        ((fixFrom lint remaining (pass lint source) (lint (pass lint source)).fixes).1,
          lint (pass lint source) ::
            (fixFrom lint remaining (pass lint source) (lint (pass lint source)).fixes).2) := by
  by_cases noFixes : (lint source).fixes = []
  · have unchanged : pass lint source = source := by
      rw [pass, noFixes, Fix.applyAll_nil]
    rw [noFixes, fixFrom_nil, if_pos unchanged]
  · exact fixFrom_succ_of_ne_nil noFixes

/-- The loop ends with the source after the full number of passes. -/
theorem fixFrom_eq_iterate_pass (lint : Source → Lint) (remaining : Nat) (source : Source) :
    (fixFrom lint remaining source (lint source).fixes).1 = (pass lint)^[remaining] source := by
  induction remaining generalizing source with
  | zero => rfl
  | succ remaining ih =>
      rw [fixFrom_succ]
      by_cases unchanged : pass lint source = source
      · rw [if_pos unchanged, Function.iterate_fixed unchanged]
      · rw [if_neg unchanged, Function.iterate_succ_apply]
        by_cases isLast : remaining = 0
        · subst isLast
          rfl
        · rw [if_neg isLast]
          exact ih (pass lint source)

/-- A run that fixes ends with the source after the greatest number of passes. -/
theorem fixed_runListeners (parse : Source → Node) (listeners : List CompiledListener)
    (source : Source) :
    (runListeners parse listeners true source).fixed =
      some ((pass (lint parse listeners))^[maxPasses] source) := by
  rw [← fixFrom_eq_iterate_pass, runListeners, if_pos rfl]

/-- If not every pass changes the text, the last source is one that a pass leaves
alone. -/
theorem pass_iterate_eq_self_of_changes_lt {lint : Source → Lint} {remaining : Nat}
    {source : Source} (few : changes lint remaining source < remaining) :
    pass lint ((pass lint)^[remaining] source) = (pass lint)^[remaining] source := by
  induction remaining generalizing source with
  | zero => simp at few
  | succ remaining ih =>
      rw [changes] at few
      by_cases unchanged : pass lint source = source
      · rw [Function.iterate_fixed unchanged, unchanged]
      · rw [if_neg unchanged] at few
        rw [Function.iterate_succ_apply]
        exact ih (by omega)

/-- At a source that a pass leaves alone no pass changes anything. -/
theorem changes_eq_zero {lint : Source → Lint} {source : Source}
    (unchanged : pass lint source = source) (remaining : Nat) :
    changes lint remaining source = 0 := by
  induction remaining with
  | zero => rfl
  | succ remaining ih => rw [changes, if_pos unchanged, unchanged, ih]

/-- The loop lints after every pass that changes the text, unless it is the last
one allowed. -/
theorem lints_fixFrom (lint : Source → Lint) (remaining : Nat) (source : Source) :
    (fixFrom lint remaining source (lint source).fixes).2 =
      (List.range (min (changes lint remaining source) (remaining - 1))).map
        fun count => lint ((pass lint)^[count + 1] source) := by
  induction remaining generalizing source with
  | zero => rfl
  | succ remaining ih =>
      rw [fixFrom_succ]
      by_cases unchanged : pass lint source = source
      · rw [if_pos unchanged, changes_eq_zero unchanged]
        rfl
      · rw [if_neg unchanged, changes, if_neg unchanged]
        by_cases isLast : remaining = 0
        · simp [isLast]
        · have countEq : min (1 + changes lint remaining (pass lint source)) (remaining + 1 - 1) =
              min (changes lint remaining (pass lint source)) (remaining - 1) + 1 := by
            omega
          rw [if_neg isLast, countEq, List.range_succ_eq_map, List.map_cons, List.map_map]
          exact congrArg (lint (pass lint source) :: ·) (ih (pass lint source))

theorem lints_runListeners (parse : Source → Node) (listeners : List CompiledListener)
    (source : Source) :
    (runListeners parse listeners true source).lints =
      (List.range (min (changes (lint parse listeners) maxPasses source) (maxPasses - 1) + 1)).map
        fun count => lint parse listeners ((pass (lint parse listeners))^[count] source) := by
  have lintsEq : (runListeners parse listeners true source).lints =
      lint parse listeners source ::
        (fixFrom (lint parse listeners) maxPasses source
          (lint parse listeners source).fixes).2 := by
    rw [runListeners, if_pos rfl]
  rw [lintsEq, lints_fixFrom, List.range_succ_eq_map, List.map_cons, List.map_map]
  rfl

/-- A run that fixes reports what it finds in the source as given and ends with the
source after ten passes, on its way linting each source that it goes through.  If
not every pass changes the text, the run ends with a source that a pass and another
run leave alone; and a second run always ends with the source after twenty
passes. -/
theorem fix_run_iterates_pass {parse : Source → Node} {reader : QueryReader} {plugin : Plugin}
    {config : Config} {rules : List Rule} {listeners : List CompiledListener}
    (enabled : enabledRules plugin config = .ok rules)
    (compiled : compileAll reader rules = .ok listeners) (fixing : config.fix = true)
    (source : Source) :
    ∃ outcome final again,
      run parse reader plugin config source = .ok outcome ∧
      outcome.violations = (lint parse listeners source).violations ∧
      outcome.fixed = some final ∧
      final = (pass (lint parse listeners))^[10] source ∧
      outcome.lints =
        (List.range (min (changes (lint parse listeners) 10 source) 9 + 1)).map
          (fun count => lint parse listeners ((pass (lint parse listeners))^[count] source)) ∧
      run parse reader plugin config final = .ok again ∧
      again.fixed = some ((pass (lint parse listeners))^[20] source) ∧
      (changes (lint parse listeners) 10 source < 10 →
        pass (lint parse listeners) final = final ∧ again.fixed = some final) := by
  have fixedIs (start : Source) :
      (runListeners parse listeners config.fix start).fixed =
        some ((pass (lint parse listeners))^[10] start) := by
    rw [fixing]
    exact fixed_runListeners parse listeners start
  refine ⟨_, _, _, run_eq_ok enabled compiled, violations_runListeners _ _ _ _, fixedIs source,
    rfl, ?_, run_eq_ok enabled compiled, ?_, ?_⟩
  · rw [fixing]
    exact lints_runListeners parse listeners source
  · rw [fixedIs, ← Function.iterate_add_apply]
  · intro few
    have settled := pass_iterate_eq_self_of_changes_lt few
    exact ⟨settled, by rw [fixedIs, Function.iterate_fixed settled]⟩

/-- Two runs of a rule whose fixes never come to rest. -/
theorem sample_fix_run_iterates_pass :
    ∃ outcome final again,
      run sampleParse Query.reader samplePlugin ⟨["append"], true⟩ ['x'] = .ok outcome ∧
      outcome.fixed = some final ∧
      final = 'x' :: List.replicate 10 'a' ∧
      run sampleParse Query.reader samplePlugin ⟨["append"], true⟩ final = .ok again ∧
      again.fixed = some ('x' :: List.replicate 20 'a') := by
  have enabled : enabledRules samplePlugin ⟨["append"], true⟩ =
      .ok [sampleRule "append" .nodeEnd "a"] := rfl
  have compiled := compileAll_singleton_eq (compileFrom_sampleRule "append" .nodeEnd "a")
  have grown : (pass (lint sampleParse [sampleListener "append" .nodeEnd "a"]))^[10] ['x'] =
      'x' :: List.replicate 10 'a' := by
    decide +kernel
  have grownTwice : (pass (lint sampleParse [sampleListener "append" .nodeEnd "a"]))^[20] ['x'] =
      'x' :: List.replicate 20 'a' := by
    decide +kernel
  obtain ⟨outcome, final, again, ran, -, fixed, finalEq, -, ranAgain, fixedAgain, -⟩ :=
    fix_run_iterates_pass enabled compiled rfl ['x']
  exact ⟨outcome, final, again, ran, fixed, finalEq.trans grown, ranAgain, by
    rw [fixedAgain, grownTwice]⟩

end Linter

end AssertLint
