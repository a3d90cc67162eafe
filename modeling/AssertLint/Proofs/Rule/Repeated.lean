import AssertLint.Proofs.Linter.Copies
import AssertLint.Proofs.Rule.Nesting

/-!
# Naming the rule more than once

The rule on regular expressions makes at most one report about a call, and its fixes
always replace something.  So a run in which the rule is named several times reports
every violation as often, one right behind the other, and fixes the source as a run does
in which it is named once.
-/

namespace AssertLint

/-- No two calls of a tree have the same range. -/
def Node.CallsHaveOwnRanges (tree : Node) : Prop :=
  ∀ first ∈ tree.cursors, ∀ second ∈ tree.cursors, first.kind = .callExpression →
    second.kind = .callExpression → first.span = second.span → first.address = second.address

instance (tree : Node) : Decidable tree.CallsHaveOwnRanges :=
  inferInstanceAs (Decidable (∀ first ∈ tree.cursors, ∀ second ∈ tree.cursors, _ → _ → _ → _))

namespace RegexAssertion

theorem length_respond_le (file : File) (call : Cursor) : (respond file call).length ≤ 1 := by
  rw [← List.length_map Report.node, map_node_respond]
  split <;> simp

section Copies

variable {parse : Source → Node} {reader : QueryReader} {read : ReadQuery} {source : Source}
  (readsRule : ReadsRule reader read)

include readsRule

theorem staysInTree (file : File) : Linter.StaysInTree file (compiledListener read) :=
  fun _ captured => Cursor.mem_cursors_iff.mp (readsRule.mem_cursors captured).1

theorem hasOwnRanges (ownRanges : (parse source).CallsHaveOwnRanges) :
    Linter.HasOwnRanges (File.ofTree source (parse source)) (compiledListener read) := by
  intro first firstMem second secondMem sameSpan
  obtain ⟨firstIn, firstCall⟩ := readsRule.mem_cursors firstMem
  obtain ⟨secondIn, secondCall⟩ := readsRule.mem_cursors secondMem
  exact (Cursor.mem_cursors_iff.mp firstIn).eq_of_address_eq (Cursor.mem_cursors_iff.mp secondIn)
    (ownRanges first firstIn second secondIn firstCall secondCall sameSpan)

theorem violations_lint_copies (ownRanges : (parse source).CallsHaveOwnRanges) (count : Nat) :
    (Linter.lint parse (List.replicate count (compiledListener read)) source).violations =
      (Linter.lint parse [compiledListener read] source).violations.flatMap
        (List.replicate count) :=
  Linter.violations_lint_replicate (staysInTree readsRule _) (hasOwnRanges readsRule ownRanges)
    (fun node => length_respond_le _ node) count

theorem nonempty_of_mem_fixes (wellFormed : (parse source).WellFormed source) {fix : Fix}
    (member : fix ∈ (Linter.lint parse [compiledListener read] source).fixes) :
    fix.span.start < fix.span.stop := by
  obtain ⟨violation, violationMem, fixEq⟩ := List.mem_filterMap.mp member
  obtain ⟨fix', fixEq', -, nonempty⟩ :=
    exists_fix_of_mem_violations readsRule wellFormed violationMem
  obtain rfl := Option.some.inj (fixEq'.symm.trans fixEq)
  exact nonempty

/-- A pass with the fixes of several copies of the rule is a pass with those of one. -/
theorem pass_lint_copies (wellFormed : (parse source).WellFormed source)
    (ownRanges : (parse source).CallsHaveOwnRanges) (count : Nat) :
    Linter.pass (Linter.lint parse (List.replicate (count + 1) (compiledListener read))) source =
      Linter.pass (Linter.lint parse [compiledListener read]) source := by
  rw [Linter.pass,
    Linter.fixes_of_violations_eq (violations_lint_copies readsRule ownRanges (count + 1))]
  exact Fix.applyAll_flatMap_replicate (fun _ => nonempty_of_mem_fixes readsRule wellFormed) count

theorem fixed_runListeners_copies (wellFormed : ∀ text, (parse text).WellFormed text)
    (ownRanges : ∀ text, (parse text).CallsHaveOwnRanges) (count : Nat) (fix : Bool)
    (source : Source) :
    (Linter.runListeners parse (List.replicate (count + 1) (compiledListener read)) fix
        source).fixed =
      (Linter.runListeners parse [compiledListener read] fix source).fixed := by
  cases fix with
  | false => rfl
  | true =>
      have samePass :
          Linter.pass (Linter.lint parse (List.replicate (count + 1) (compiledListener read))) =
            Linter.pass (Linter.lint parse [compiledListener read]) :=
        funext fun text => pass_lint_copies readsRule (wellFormed text) (ownRanges text) count
      rw [Linter.fixed_runListeners, Linter.fixed_runListeners, samePass]

end Copies

/-- A run in which the rule is named several times reports each violation of a run in
which it is named once as often, and it ends with the same source. -/
theorem repeated_rule_repeats_violations {parse : Source → Node} {reader : QueryReader}
    {read : ReadQuery} {plugin : Plugin} (readsRule : ReadsRule reader read)
    (found : plugin.rule? "prefer-t-regex" = some rule)
    (wellFormed : ∀ text, (parse text).WellFormed text)
    (ownRanges : ∀ text, (parse text).CallsHaveOwnRanges) {count : Nat} (positive : 1 ≤ count)
    (fix : Bool) (source : Source) :
    ∃ single repeated,
      Linter.run parse reader plugin ⟨["prefer-t-regex"], fix⟩ source = .ok single ∧
      Linter.run parse reader plugin ⟨List.replicate count "prefer-t-regex", fix⟩ source =
        .ok repeated ∧
      repeated.violations = single.violations.flatMap (List.replicate count) ∧
      repeated.fixed = single.fixed := by
  obtain ⟨further, rfl⟩ := Nat.exists_eq_add_of_le' positive
  refine ⟨_, _,
    Linter.run_eq_ok (Linter.enabledRules_singleton found fix) readsRule.compileAll_rule,
    Linter.run_eq_ok (Linter.enabledRules_replicate found further fix)
      (Linter.compileAll_replicate readsRule.compileAll_rule (further + 1)), ?_, ?_⟩
  · rw [Linter.violations_runListeners, Linter.violations_runListeners]
    exact violations_lint_copies readsRule (ownRanges source) (further + 1)
  · exact fixed_runListeners_copies readsRule wellFormed ownRanges further fix source

/-- The parser of the nested sample is well behaved on every text. -/
theorem nestedParse_wellFormed_and_ownRanges (text : Source) :
    (nestedParse text).WellFormed text ∧ (nestedParse text).CallsHaveOwnRanges := by
  unfold nestedParse
  split
  next isNested =>
    subst isNested
    exact ⟨by decide +kernel, by decide +kernel⟩
  next =>
    refine ⟨Node.wellFormed_leaf text, ?_⟩
    intro first firstMem _ _ firstCall
    obtain rfl := List.mem_singleton.mp firstMem
    simp [Cursor.kind] at firstCall

/-- Named three times, the rule reports both assertions of the nested sample three times,
and the outer one is rewritten once. -/
theorem nested_violations_repeated :
    ∃ repeated,
      Linter.run nestedParse Query.reader assertionRules
          ⟨["prefer-t-regex", "prefer-t-regex", "prefer-t-regex"], true⟩ nestedSource =
        .ok repeated ∧
      repeated.violations.map (·.span) =
        [⟨25, 65⟩, ⟨25, 65⟩, ⟨25, 65⟩, ⟨43, 63⟩, ⟨43, 63⟩, ⟨43, 63⟩] ∧
      repeated.fixed = some "import a from 'ava';a(t=>t.regex(s, /b/))".toList := by
  have found : assertionRules.rule? "prefer-t-regex" = some rule := rfl
  obtain ⟨single, repeated, ranOnce, ran, violationsEq, fixedEq⟩ :=
    repeated_rule_repeats_violations readsRule_reader found
      (fun text => (nestedParse_wellFormed_and_ownRanges text).1)
      (fun text => (nestedParse_wellFormed_and_ownRanges text).2) (by decide : 1 ≤ 3) true
      nestedSource
  rw [Linter.run_eq_ok (Linter.enabledRules_singleton found true)
    readsRule_reader.compileAll_rule, Except.ok.injEq] at ranOnce
  subst ranOnce
  have spans : (Linter.lint nestedParse [compiledListener callQuery.asRead]
      nestedSource).violations.map (·.span) = [⟨25, 65⟩, ⟨43, 63⟩] := by
    decide +kernel
  have final : (Linter.runListeners nestedParse [compiledListener callQuery.asRead] true
      nestedSource).fixed =
      some "import a from 'ava';a(t=>t.regex(s, /b/))".toList := by
    decide +kernel
  refine ⟨repeated, ran, ?_, fixedEq.trans final⟩
  rw [violationsEq, Linter.violations_runListeners, List.map_flatMap]
  simp only [List.map_replicate]
  rw [← List.flatMap_map, spans]
  rfl

end RegexAssertion

end AssertLint
