import AssertLint.Proofs.Fix.AtOnce
import AssertLint.Proofs.Linter.FixLoop

/-!
# The passes of a run

The loop of fixes carries a text and a list of fixes from pass to pass.  This file
writes down what is handed to each pass and shows that the two always belong
together: the fixes are those of a lint of the very text that they are applied to.
Rules may propose whatever edits they like, but what is merged into a fix fits the
text, so a pass leaves out a fix only where it has already made another one, and the
first fix in order is always made.
-/

namespace AssertLint

namespace Fix

section Valid

variable {source : Source} {fixes : List Fix}

theorem isValid_of_ofEdits_eq_ok {edits : List Edit} {fix : Fix}
    (merged : ofEdits source edits = .ok fix) : source.isValid fix.span = true := by
  obtain ⟨-, -, -, isValid, -⟩ := exists_inOrder_of_ofEdits_eq_ok merged
  exact isValid

/-- The first of some valid fixes in order is made. -/
theorem exists_decisions_eq_cons (nonempty : fixes ≠ [])
    (valid : ∀ fix ∈ fixes, source.isValid fix.span = true) :
    ∃ first rest decisions, inOrder fixes = first :: rest ∧
      decisionsFrom source 0 (inOrder fixes) = (first, true) :: decisions := by
  obtain ⟨first, rest, ordered, member⟩ := exists_inOrder_eq_cons nonempty
  refine ⟨first, rest, decisionsFrom source first.span.stop rest, ordered, ?_⟩
  rw [ordered, decisionsFrom, if_neg (not_skipped_iff.mpr ⟨Nat.zero_le _, valid first member⟩)]

end Valid

end Fix

namespace Linter

/-- What is handed to one pass of the loop. -/
structure Pass where
  source : Source
  fixes : List Fix

namespace Pass

/-- The fixes of a pass in order, each with whether the pass makes it. -/
def decisions (pass : Pass) : List (Fix × Bool) :=
  Fix.decisionsFrom pass.source 0 (Fix.inOrder pass.fixes)

end Pass

/-- The passes that the loop makes.  A pass that changes nothing is made, but no
other one follows it. -/
def passesFrom (lint : Source → Lint) : Nat → Source → List Fix → List Pass
  | 0, _, _ => []
  | remaining + 1, source, fixes =>
      if fixes.isEmpty then
        []
      else
        let following := Fix.applyAll source fixes
        if following = source ∨ remaining = 0 then
          [⟨source, fixes⟩]
        else
          ⟨source, fixes⟩ :: passesFrom lint remaining following (lint following).fixes

/-- Passes lead from a text to another one: each starts from the text that the one
before it leaves. -/
inductive Leads : Source → List Pass → Source → Prop where
  | done (source : Source) : Leads source [] source
  | pass {source final : Source} {fixes : List Fix} {later : List Pass}
      (onward : Leads (Fix.applyAll source fixes) later final) :
      Leads source (⟨source, fixes⟩ :: later) final

section Loop

variable {lint : Source → Lint} {remaining : Nat} {source : Source} {fixes : List Fix}

theorem passesFrom_nil (lint : Source → Lint) (remaining : Nat) (source : Source) :
    passesFrom lint remaining source [] = [] := by
  cases remaining <;> rfl

theorem passesFrom_succ_of_ne_nil (nonempty : fixes ≠ []) :
    passesFrom lint (remaining + 1) source fixes =
      if Fix.applyAll source fixes = source ∨ remaining = 0 then [⟨source, fixes⟩]
      else
        ⟨source, fixes⟩ :: passesFrom lint remaining (Fix.applyAll source fixes)
          (lint (Fix.applyAll source fixes)).fixes := by
  rw [passesFrom, if_neg (by simpa using nonempty)]

theorem leads_passesFrom (lint : Source → Lint) (remaining : Nat) (source : Source)
    (fixes : List Fix) :
    Leads source (passesFrom lint remaining source fixes)
      (fixFrom lint remaining source fixes).1 := by
  induction remaining generalizing source fixes with
  | zero => exact Leads.done source
  | succ remaining ih =>
      by_cases empty : fixes = []
      · rw [empty, passesFrom_nil, fixFrom_nil]
        exact Leads.done source
      · rw [passesFrom_succ_of_ne_nil empty, fixFrom_succ_of_ne_nil empty]
        by_cases unchanged : Fix.applyAll source fixes = source
        · -- The loop ends with the source before the pass, which is the one behind it too.
          rw [if_pos (Or.inl unchanged), if_pos unchanged]
          apply Leads.pass
          rw [unchanged]
          exact Leads.done source
        · rw [if_neg unchanged]
          by_cases isLast : remaining = 0
          · rw [if_pos (Or.inr isLast), if_pos isLast]
            exact Leads.pass (Leads.done _)
          · rw [if_neg (by simp [unchanged, isLast]), if_neg isLast]
            exact Leads.pass (ih _ _)

/-- There is a pass for the fixes that the loop starts with and for those of every lint
that it makes, if there are any. -/
theorem fixes_passesFrom (lint : Source → Lint) (remaining : Nat) (source : Source)
    (fixes : List Fix) :
    (passesFrom lint (remaining + 1) source fixes).map Pass.fixes =
      (fixes :: (fixFrom lint (remaining + 1) source fixes).2.map Lint.fixes).filter
        fun fixes => !fixes.isEmpty := by
  induction remaining generalizing source fixes with
  | zero =>
      by_cases empty : fixes = []
      · simp [empty, passesFrom_nil, fixFrom_nil]
      · rw [passesFrom_succ_of_ne_nil empty, fixFrom_succ_of_ne_nil empty]
        by_cases unchanged : Fix.applyAll source fixes = source <;> simp [unchanged, empty]
  | succ remaining ih =>
      by_cases empty : fixes = []
      · simp [empty, passesFrom_nil, fixFrom_nil]
      · rw [passesFrom_succ_of_ne_nil empty, fixFrom_succ_of_ne_nil empty]
        by_cases unchanged : Fix.applyAll source fixes = source
        · simp [unchanged, empty]
        · rw [if_neg (by simp [unchanged]), if_neg unchanged, if_neg (Nat.succ_ne_zero remaining),
            List.map_cons, ih]
          exact (List.filter_cons_of_pos (by simpa using empty)).symm

theorem ne_nil_of_mem_passesFrom :
    ∀ pass ∈ passesFrom lint remaining source fixes, pass.fixes ≠ [] := by
  induction remaining generalizing source fixes with
  | zero => simp [passesFrom]
  | succ remaining ih =>
      by_cases empty : fixes = []
      · simp [empty, passesFrom_nil]
      · rw [passesFrom_succ_of_ne_nil empty]
        split
        · simpa using empty
        · exact List.forall_mem_cons.mpr ⟨empty, ih⟩

/-- If the fixes at the start are those of a lint of the source, so are the fixes of
every pass. -/
theorem fixes_of_mem_passesFrom :
    ∀ pass ∈ passesFrom lint remaining source (lint source).fixes,
      pass.fixes = (lint pass.source).fixes := by
  induction remaining generalizing source with
  | zero => simp [passesFrom]
  | succ remaining ih =>
      by_cases empty : (lint source).fixes = []
      · simp [empty, passesFrom_nil]
      · rw [passesFrom_succ_of_ne_nil empty]
        split
        · simp
        · exact List.forall_mem_cons.mpr ⟨rfl, ih⟩

end Loop

/-- A fix was merged from edits that a listener proposed for a text. -/
def ProposedFor (parse : Source → Node) (listeners : List CompiledListener) (source : Source)
    (fix : Fix) : Prop :=
  ∃ listener ∈ listeners,
    ∃ node ∈ listener.query.capturedNodes source (parse source) listener.capture,
      ∃ report ∈ listener.respond (File.ofTree source (parse source)) node,
        ∃ edits, report.edits = some edits ∧ Fix.ofEdits source edits = .ok fix

theorem proposedFor_of_mem_fixes {parse : Source → Node} {listeners : List CompiledListener}
    {source : Source} {fix : Fix} (member : fix ∈ (lint parse listeners source).fixes) :
    ProposedFor parse listeners source fix := by
  obtain ⟨violation, violationMem, hasFix⟩ := List.mem_filterMap.mp member
  obtain ⟨listener, listenerMem, node, captured, report, reportMem, rfl⟩ :=
    exists_report_of_mem_violations violationMem
  refine ⟨listener, listenerMem, node, captured, report, reportMem, ?_⟩
  change listener.info.fix? source report = some fix at hasFix
  rw [RuleInfo.fix?] at hasFix
  split at hasFix
  · obtain ⟨edits, proposed, merged⟩ := Option.bind_eq_some_iff.mp hasFix
    refine ⟨edits, proposed, ?_⟩
    cases outcome : Fix.ofEdits source edits with
    | error problem => simp [outcome, Except.toOption] at merged
    | ok merged' =>
        rw [outcome] at merged
        rw [Option.some.inj merged]
  · simp at hasFix

/-- What holds of every pass: its fixes are those of a lint of its text, each was merged
from edits proposed for that text and can be cut out of it, a fix is skipped only if it
starts before the end of one made before it, and the first one in order is made. -/
structure Pass.IsSound (parse : Source → Node) (listeners : List CompiledListener)
    (pass : Pass) : Prop where
  fresh : pass.fixes = (lint parse listeners pass.source).fixes
  proposed : ∀ fix ∈ pass.fixes, ProposedFor parse listeners pass.source fix
  isValid : ∀ fix ∈ pass.fixes, pass.source.isValid fix.span = true
  stableOrder : IsStableOrder (·.span.start) pass.fixes (pass.decisions.map Prod.fst)
  made : Fix.chosen pass.decisions = Fix.selected pass.source pass.fixes
  skipped : ∀ before fix after, pass.decisions = before ++ (fix, false) :: after →
    ∃ other ∈ Fix.chosen before, fix.span.start < other.span.stop
  firstMade : ∃ first later, pass.decisions = (first, true) :: later
  someMade : Fix.selected pass.source pass.fixes ≠ []

theorem isSound_of_fresh {parse : Source → Node} {listeners : List CompiledListener}
    {pass : Pass} (fresh : pass.fixes = (lint parse listeners pass.source).fixes)
    (nonempty : pass.fixes ≠ []) : pass.IsSound parse listeners := by
  have proposed : ∀ fix ∈ pass.fixes, ProposedFor parse listeners pass.source fix := by
    rw [fresh]
    exact fun fix => proposedFor_of_mem_fixes
  have isValid : ∀ fix ∈ pass.fixes, pass.source.isValid fix.span = true := by
    intro fix member
    obtain ⟨-, -, -, -, -, -, edits, -, merged⟩ := proposed fix member
    exact Fix.isValid_of_ofEdits_eq_ok merged
  have ordered : pass.decisions.map Prod.fst = Fix.inOrder pass.fixes :=
    Fix.map_fst_decisionsFrom pass.source 0 _
  have made := Fix.chosen_decisions pass.source pass.fixes
  obtain ⟨first, rest, later, -, decided⟩ := Fix.exists_decisions_eq_cons nonempty isValid
  refine
    { fresh := fresh
      proposed := proposed
      isValid := isValid
      stableOrder := ?_
      made := made
      skipped := ?_
      firstMade := ⟨first, later, decided⟩
      someMade := ?_ }
  · rw [ordered]
    exact Fix.isStableOrder_inOrder pass.fixes
  · intro before fix after split
    have member : fix ∈ pass.fixes := by
      rw [← (Fix.isStableOrder_inOrder pass.fixes).perm.mem_iff, ← ordered, split]
      simp
    rcases (Fix.isGreedy_decisions pass.source pass.fixes).excused before fix after split with
      invalid | ⟨other, otherMem, -, inside⟩
    · simp [isValid fix member] at invalid
    · exact ⟨other, otherMem, inside⟩
  · rw [← made, decided, Fix.chosen_cons_true]
    exact List.cons_ne_nil first _

/-- In a run that fixes, one pass follows the other from the source as given to the fixed
source, there is one for each lint that finds fixes, and each of them is sound. -/
theorem fix_run_passes_are_sound {parse : Source → Node} {reader : QueryReader} {plugin : Plugin}
    {config : Config} {source : Source} {outcome : Outcome}
    (ran : run parse reader plugin config source = .ok outcome)
    (fixing : config.fix = true) :
    ∃ rules listeners passes final,
      enabledRules plugin config = .ok rules ∧ compileAll reader rules = .ok listeners ∧
      outcome.fixed = some final ∧ Leads source passes final ∧
      passes.map Pass.fixes =
        (outcome.lints.map Lint.fixes).filter (fun fixes => !fixes.isEmpty) ∧
      ∀ pass ∈ passes, pass.IsSound parse listeners := by
  simp only [run, bind_eq_ok_iff, pure_eq_ok_iff] at ran
  obtain ⟨rules, enabled, listeners, compiled, rfl⟩ := ran
  rw [fixing]
  refine ⟨rules, listeners,
    passesFrom (lint parse listeners) maxPasses source (lint parse listeners source).fixes, _,
    enabled, compiled, by rw [runListeners, if_pos rfl], leads_passesFrom _ _ _ _, ?_, ?_⟩
  · rw [runListeners, if_pos rfl]
    exact fixes_passesFrom (lint parse listeners) 9 source _
  · intro pass member
    exact isSound_of_fresh (fixes_of_mem_passesFrom pass member)
      (ne_nil_of_mem_passesFrom pass member)

/-! ## A sample run -/

/-- The reports of a rule that replaces a node in two ways and proposes an inverted
edit as well. -/
def crowdedReports : List Described.ReportPlan :=
  [⟨"one", [], some [⟨.node, 0, 0, "é"⟩]⟩, ⟨"other", [], some [⟨.node, 0, 0, "c"⟩]⟩,
    ⟨"inverted", [], some [⟨.node, 3, 0, "d"⟩]⟩]

def crowdedPlugin : Plugin :=
  ⟨"crowded", [⟨⟨"crowded", "", "", true, []⟩,
    [Described.listener "(identifier) @name" none crowdedReports]⟩]⟩

def crowdedListener : CompiledListener :=
  ⟨⟨"crowded", "", "", true, []⟩, 0,
    fun file node => crowdedReports.map (·.report file node), sampleQuery.asRead, "name"⟩

theorem compileAll_crowdedPlugin :
    compileAll Query.reader crowdedPlugin.rules = .ok [crowdedListener] := by
  simp [crowdedPlugin, Described.listener, compileAll, compileFrom, compileListener,
    reader_sampleQuery, listenedCapture?, Query.asRead, sampleQuery, crowdedListener, bind,
    Except.bind, pure, Except.pure]

/-- Two passes with a fix that is made, one that is skipped and one that was never
merged. -/
theorem crowded_run_passes_are_sound :
    ∃ outcome passes,
      run sampleParse Query.reader crowdedPlugin ⟨[], true⟩ ['x'] = .ok outcome ∧
      outcome.violations.map (·.messageId) = ["one", "other", "inverted"] ∧
      Leads ['x'] passes ['é'] ∧
      passes.map Pass.fixes =
        [[⟨⟨0, 1⟩, "é"⟩, ⟨⟨0, 1⟩, "c"⟩], [⟨⟨0, 2⟩, "é"⟩, ⟨⟨0, 2⟩, "c"⟩]] ∧
      ∀ pass ∈ passes, pass.IsSound sampleParse [crowdedListener] := by
  have ran : run sampleParse Query.reader crowdedPlugin ⟨[], true⟩ ['x'] =
      .ok (runListeners sampleParse [crowdedListener] true ['x']) :=
    run_eq_ok rfl compileAll_crowdedPlugin
  have fixed : (runListeners sampleParse [crowdedListener] true ['x']).fixed = some ['é'] := by
    decide +kernel
  have found : (runListeners sampleParse [crowdedListener] true ['x']).violations.map
      (·.messageId) = ["one", "other", "inverted"] := by
    decide +kernel
  have handed : ((runListeners sampleParse [crowdedListener] true ['x']).lints.map
      Lint.fixes).filter (fun fixes => !fixes.isEmpty) =
        [[⟨⟨0, 1⟩, "é"⟩, ⟨⟨0, 1⟩, "c"⟩], [⟨⟨0, 2⟩, "é"⟩, ⟨⟨0, 2⟩, "c"⟩]] := by
    decide +kernel
  obtain ⟨rules, listeners, passes, final, enabled, compiled, fixedEq, leads, fixes, sound⟩ :=
    fix_run_passes_are_sound ran rfl
  obtain rfl : crowdedPlugin.rules = rules := Except.ok.inj enabled
  obtain rfl : [crowdedListener] = listeners :=
    Except.ok.inj (compileAll_crowdedPlugin.symm.trans compiled)
  obtain rfl : ['é'] = final := Option.some.inj (fixed.symm.trans fixedEq)
  exact ⟨_, passes, ran, found, leads, fixes.trans handed, sound⟩

end Linter

end AssertLint
