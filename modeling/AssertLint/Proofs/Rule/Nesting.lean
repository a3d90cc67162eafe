import AssertLint.Proofs.Fix.Outermost
import AssertLint.Proofs.Rule.Reporting
import AssertLint.Proofs.Tree.Nesting

/-!
# Assertions inside of assertions

A reported call may stand in another one, but only in its arguments: the callee
starts from the name `t`, and the name of the assertion is too short to hold a
call.  So the fix of the inner call is behind the name of the outer assertion, and
it is inside of the fix of the outer call or behind it.
-/

namespace AssertLint

open StateTransition

namespace RegexAssertion

open Cursor (accessed? inParentheses? mainChildren)

/-- A fix of a call runs from the name of the assertion to the end of its last argument
that is replaced. -/
structure FixPlace (source : Source) (call name last : Cursor) (fix : Fix) : Prop where
  callee : ∃ callee, call.field? .callee = some callee ∧ callee.kind ≠ .callExpression ∧
    callee.field? .property = some name
  list : ∃ list, call.field? .arguments = some list ∧ list.kind = .arguments ∧
    last ∈ list.mainChildren
  named : name.text source ∈ assertionNames
  start_eq : fix.span.start = name.span.start
  stop_eq : fix.span.stop = last.span.stop
  name_stop_lt : name.span.stop < last.span.stop

/-! ## Where a fix stands -/

theorem mem_assertionNames_of_asserts {name : String} {replacement : Replacement}
    (asserts : AssertsBoolean name replacement ∨ AssertsEquality name) :
    name ∈ assertionNames := by
  rcases asserts with asserts | asserts
  · cases asserts <;> simp [assertionNames]
  · cases asserts <;> simp [assertionNames]

section Tree

variable {source : Source} {tree : Node}

/-- The callee of an assertion is not itself a call. -/
theorem kind_callee_ne {call callee : Cursor} (lies : Cursor.LiesIn tree call)
    {result : Replacement × List Edit}
    (found : replacement? (File.ofTree source tree) call = some result)
    (calleeFound : call.field? .callee = some callee) : callee.kind ≠ .callExpression := by
  obtain ⟨name, arguments, isReadAs, -⟩ := (exists_replacement?_iff lies).mp ⟨result, found⟩
  obtain ⟨callee', property, root, calleeFound', -, -, leads, isRoot, -⟩ := isReadAs.callee
  obtain rfl : callee = callee' := Option.some.inj (calleeFound.symm.trans calleeFound')
  intro isCall
  rcases leads.cases_head with rfl | ⟨object, step, -⟩
  · simp [isCall] at isRoot
  · simp [accessed?, inParentheses?, isCall] at step

theorem liesIn_argument {call argument : Cursor} {arguments : List Cursor}
    (lies : Cursor.LiesIn tree call) (hasArguments : call.HasArguments mainChildren arguments)
    (member : argument ∈ arguments) : Cursor.LiesIn tree argument := by
  obtain ⟨list, listFound, -, rfl⟩ := hasArguments
  exact (lies.of_field? listFound).of_mem_children (Cursor.mem_mainChildren_iff.mp member).1

section Match

variable {parts : Cursor → List Cursor} {expression : Cursor}

theorem CallsMethod.start_lt_stop {object argument : Cursor} {name : String}
    (calls : CallsMethod mainChildren parts source expression name object argument)
    (named : name ≠ "") (lies : Cursor.LiesIn tree expression) (placed : tree.WellPlaced source) :
    expression.span.start < expression.span.stop := by
  obtain ⟨call, leads, isMethodCall⟩ := calls
  obtain ⟨callee, property, calleeFound, -, propertyFound, -, nameEq, -⟩ := isMethodCall.callee
  have callLies := lies.of_reaches (fun _ _ => Cursor.mem_children_of_inParentheses?) leads
  have aboveCall :=
    Cursor.mem_selfAndAncestors_of_reaches (fun _ _ => Cursor.mem_children_of_inParentheses?) leads
  have propertyLies := (callLies.of_field? calleeFound).of_field? propertyFound
  have inCall : call ∈ property.selfAndAncestors :=
    Cursor.mem_selfAndAncestors_of_child (Cursor.mem_children_of_field? calleeFound)
      (Cursor.mem_selfAndAncestors_of_child (Cursor.mem_children_of_field? propertyFound)
        List.mem_cons_self)
  have within := propertyLies.within_of_mem_selfAndAncestors placed
    (Cursor.mem_selfAndAncestors_trans inCall aboveCall)
  have nonempty : property.span.start < property.span.stop := by
    apply Source.start_lt_stop_of_text_ne (propertyLies.isValid placed)
    rw [← nameEq] at named
    exact named
  unfold Span.Within at within
  omega

theorem IsMatch.start_lt_stop {text pattern : Cursor}
    (isMatch : IsMatch mainChildren parts source expression text pattern)
    (lies : Cursor.LiesIn tree expression) (placed : tree.WellPlaced source) :
    expression.span.start < expression.span.stop := by
  obtain ⟨method, object, argument, calls, -⟩ := isMatch.exists_callsMethod
  exact calls.start_lt_stop (by cases method <;> decide) lies placed

end Match

/-- The fix that the rule proposes for a call stands between the name of the assertion and
one of its arguments. -/
theorem exists_fixPlace {call : Cursor} {replacement : Replacement} {edits : List Edit} {fix : Fix}
    (wellFormed : tree.WellFormed source) (inTree : call ∈ tree.cursors)
    (isCall : call.kind = .callExpression)
    (found : replacement? (File.ofTree source tree) call = some (replacement, edits))
    (merged : Fix.ofEdits source edits = .ok fix) :
    ∃ name last, FixPlace source call name last fix := by
  have lies := Cursor.mem_cursors_iff.mp inTree
  have placed := wellFormed.placed
  have callPlaced := lies.wellPlaced placed
  have rewrites : Rewrites source call edits := rewrites_of_replacement? found
  obtain ⟨chained, inside⟩ := rewrites.chained wellFormed inTree isCall
  obtain ⟨first, rest, rfl, -⟩ := rewrites.exists_first
  have valid : ∀ edit ∈ first :: rest, source.isValid edit.span = true :=
    fun edit member => (inside edit member).1
  rw [Fix.ofEdits_of_chained (chained.weaken (Nat.zero_le _)) valid] at merged
  obtain rfl := Except.ok.inj merged
  cases rewrites with
  | @boolean callee property argument _ _ _ _ calleeFound propertyFound asserts arguments isMatch =>
      have before := property_stop_le_argument_start wellFormed inTree isCall calleeFound
        propertyFound arguments List.mem_cons_self
      have nonempty :=
        isMatch.start_lt_stop (liesIn_argument lies arguments List.mem_cons_self) placed
      obtain ⟨list, listFound, isList, mainEq⟩ := arguments
      have argumentMem : argument ∈ list.mainChildren := by simp [mainEq]
      exact ⟨property, argument,
        { callee := ⟨callee, calleeFound, kind_callee_ne lies found calleeFound, propertyFound⟩
          list := ⟨list, listFound, isList, argumentMem⟩
          named := mem_assertionNames_of_asserts (Or.inl asserts)
          start_eq := rfl
          stop_eq := rfl
          name_stop_lt := by omega }⟩
  | @equality callee property first second _ _ _ replacement calleeFound propertyFound asserts
      arguments sides =>
      have firstLies := liesIn_argument lies arguments List.mem_cons_self
      have secondLies := liesIn_argument lies arguments
        (List.mem_cons_of_mem first List.mem_cons_self)
      have before := property_stop_le_argument_start wellFormed inTree isCall calleeFound
        propertyFound arguments List.mem_cons_self
      have ordered := (List.pairwise_cons.mp (pairwise_arguments callPlaced arguments)).1 second
        List.mem_cons_self
      have firstOrdered := Source.start_le_stop_of_isValid (firstLies.isValid placed)
      have secondOrdered := Source.start_le_stop_of_isValid (secondLies.isValid placed)
      -- One of the two arguments holds the match, so they are not both empty.
      have goesOn : property.span.stop < second.span.stop := by
        rcases sides with ⟨isTest, -⟩ | ⟨isTest, -⟩
        · have := isTest.start_lt_stop (by decide) firstLies placed
          omega
        · have := isTest.start_lt_stop (by decide) secondLies placed
          omega
      obtain ⟨list, listFound, isList, mainEq⟩ := arguments
      have secondMem : second ∈ list.mainChildren := by simp [mainEq]
      exact ⟨property, second,
        { callee := ⟨callee, calleeFound, kind_callee_ne lies found calleeFound, propertyFound⟩
          list := ⟨list, listFound, isList, secondMem⟩
          named := mem_assertionNames_of_asserts
            (Or.inr asserts : AssertsBoolean _ replacement ∨ _)
          start_eq := rfl
          stop_eq := rfl
          name_stop_lt := goesOn }⟩

/-! ## Two assertions -/

/-- No name of an assertion is part of another one. -/
theorem eq_of_isInfix_of_mem_assertionNames :
    ∀ outer ∈ assertionNames, ∀ inner ∈ assertionNames,
      inner.toList <:+: outer.toList → inner = outer := by
  decide

section Places

variable {call other name last otherName otherLast : Cursor} {fix otherFix : Fix}

theorem FixPlace.ancestors_name (place : FixPlace source call name last fix) :
    ∃ callee : Cursor, callee.kind ≠ .callExpression ∧
      name.ancestors = callee :: call :: call.ancestors := by
  obtain ⟨callee, calleeFound, notCall, nameFound⟩ := place.callee
  refine ⟨callee, notCall, ?_⟩
  rw [Cursor.ancestors_of_mem_children (Cursor.mem_children_of_field? nameFound),
    Cursor.ancestors_of_mem_children (Cursor.mem_children_of_field? calleeFound)]

theorem FixPlace.ancestors_last (place : FixPlace source call name last fix) :
    ∃ list : Cursor, list.kind = .arguments ∧
      last.ancestors = list :: call :: call.ancestors := by
  obtain ⟨list, listFound, isList, lastMem⟩ := place.list
  refine ⟨list, isList, ?_⟩
  rw [Cursor.ancestors_of_mem_children (Cursor.mem_mainChildren_iff.mp lastMem).1,
    Cursor.ancestors_of_mem_children (Cursor.mem_children_of_field? listFound)]

theorem FixPlace.liesIn_name (place : FixPlace source call name last fix)
    (lies : Cursor.LiesIn tree call) : Cursor.LiesIn tree name := by
  obtain ⟨callee, calleeFound, -, nameFound⟩ := place.callee
  exact (lies.of_field? calleeFound).of_field? nameFound

theorem FixPlace.liesIn_last (place : FixPlace source call name last fix)
    (lies : Cursor.LiesIn tree call) : Cursor.LiesIn tree last := by
  obtain ⟨list, listFound, -, lastMem⟩ := place.list
  exact (lies.of_field? listFound).of_mem_children (Cursor.mem_mainChildren_iff.mp lastMem).1

theorem FixPlace.name_within (place : FixPlace source call name last fix)
    (lies : Cursor.LiesIn tree call) (placed : tree.WellPlaced source) :
    name.span.Within call.span := by
  obtain ⟨callee, -, above⟩ := place.ancestors_name
  exact (place.liesIn_name lies).within_of_mem_ancestors placed (by simp [above])

theorem FixPlace.last_within (place : FixPlace source call name last fix)
    (lies : Cursor.LiesIn tree call) (placed : tree.WellPlaced source) :
    last.span.Within call.span := by
  obtain ⟨list, -, above⟩ := place.ancestors_last
  exact (place.liesIn_last lies).within_of_mem_ancestors placed (by simp [above])

theorem FixPlace.name_nonempty (place : FixPlace source call name last fix)
    (lies : Cursor.LiesIn tree call) (placed : tree.WellPlaced source) :
    name.span.start < name.span.stop := by
  apply Source.start_lt_stop_of_text_ne ((place.liesIn_name lies).isValid placed)
  intro empty
  have named : "" ∈ assertionNames := empty ▸ place.named
  revert named
  decide

/-- The name of an assertion holds no other assertion. -/
theorem FixPlace.name_not_mem (place : FixPlace source call name last fix)
    (otherPlace : FixPlace source other otherName otherLast otherFix)
    (lies : Cursor.LiesIn tree call) (otherLies : Cursor.LiesIn tree other)
    (placed : tree.WellPlaced source) : name ∉ other.selfAndAncestors := by
  intro above
  have inName := otherLies.within_of_mem_selfAndAncestors placed above
  have nameValid := (place.liesIn_name lies).isValid placed
  have otherValid := (otherPlace.liesIn_name otherLies).isValid placed
  have nameIn : otherName.span.Within name.span :=
    (otherPlace.name_within otherLies placed).trans inName
  -- The name of the other assertion is part of this one, so it is all of it.
  obtain ⟨front, back, nameEq, -⟩ :=
    Source.slice_eq_append_of_within otherValid nameValid nameIn.1 nameIn.2
  have isInfix : (otherName.text source).toList <:+: (name.text source).toList := by
    refine ⟨front, back, ?_⟩
    simp only [Cursor.text, Source.text, String.toList_ofList, List.append_assoc]
    exact nameEq.symm
  have sameText := eq_of_isInfix_of_mem_assertionNames _ place.named _ otherPlace.named isInfix
  have sameSlice : source.slice otherName.span = source.slice name.span :=
    String.ofList_injective sameText
  have nameLength := Source.byteLength_slice nameValid
  have otherLength := Source.byteLength_slice otherValid
  rw [sameSlice] at otherLength
  -- Then no room is left for the argument behind it.
  have lastIn := (otherPlace.last_within otherLies placed).trans inName
  have behind := otherPlace.name_stop_lt
  unfold Span.Within at nameIn lastIn
  omega

/-- Another call that is not around an assertion and not in its name ends before the fix, lies
in the fix behind the name, or starts behind the fix. -/
theorem FixPlace.before_or_inside_or_behind (place : FixPlace source call name last fix)
    (lies : Cursor.LiesIn tree call) (otherLies : Cursor.LiesIn tree other)
    (placed : tree.WellPlaced source) (isCall : other.kind = .callExpression)
    (differ : other ≠ call) (notAround : other ∉ call.ancestors)
    (notInName : name ∉ other.selfAndAncestors) :
    other.span.stop ≤ fix.span.start ∨
      (name.span.stop ≤ other.span.start ∧ other.span.stop ≤ fix.span.stop) ∨
      fix.span.stop ≤ other.span.start := by
  rw [place.start_eq, place.stop_eq]
  obtain ⟨callee, calleeKind, nameAbove⟩ := place.ancestors_name
  obtain ⟨list, listKind, lastAbove⟩ := place.ancestors_last
  have notAboveName : other ∉ name.ancestors := by
    rw [nameAbove]
    simp only [List.mem_cons, not_or]
    exact ⟨fun same => calleeKind (same ▸ isCall), differ, notAround⟩
  have notAboveLast : other ∉ last.ancestors := by
    rw [lastAbove]
    simp only [List.mem_cons, not_or]
    refine ⟨fun same => ?_, differ, notAround⟩
    rw [same, listKind] at isCall
    cases isCall
  have nameLies := place.liesIn_name lies
  have lastLies := place.liesIn_last lies
  rcases otherLies.above_or_apart nameLies placed with above | below | before | behind
  · exact absurd above notAboveName
  · exact absurd below notInName
  · exact Or.inl before
  · rcases otherLies.above_or_apart lastLies placed with above | below | before | after
    · exact absurd above notAboveLast
    · have inLast := otherLies.within_of_mem_selfAndAncestors placed below
      exact Or.inr (Or.inl ⟨behind, inLast.2⟩)
    · have lastOrdered := Source.start_le_stop_of_isValid (lastLies.isValid placed)
      exact Or.inr (Or.inl ⟨behind, Nat.le_trans before lastOrdered⟩)
    · exact Or.inr (Or.inr after)

/-- The fixes of two assertions of which the second is not around the first. -/
theorem FixPlace.nested_of_not_around (place : FixPlace source call name last fix)
    (otherPlace : FixPlace source other otherName otherLast otherFix)
    (lies : Cursor.LiesIn tree call) (otherLies : Cursor.LiesIn tree other)
    (placed : tree.WellPlaced source) (isCall : other.kind = .callExpression)
    (differ : other ≠ call) (notAround : other ∉ call.ancestors) :
    fix.span.Nested otherFix.span := by
  have notInName := place.name_not_mem otherPlace lies otherLies placed
  have found := place.before_or_inside_or_behind lies otherLies placed isCall differ notAround
    notInName
  have nonempty := place.name_nonempty lies placed
  have goesOn := place.name_stop_lt
  have otherNonempty := otherPlace.name_nonempty otherLies placed
  have otherGoesOn := otherPlace.name_stop_lt
  have nameIn := (otherPlace.name_within otherLies placed).1
  have lastIn := (otherPlace.last_within otherLies placed).2
  rw [← place.start_eq] at nonempty
  rw [← place.stop_eq] at goesOn
  rw [← otherPlace.start_eq] at otherNonempty nameIn
  rw [← otherPlace.stop_eq] at otherGoesOn lastIn
  rcases found with before | ⟨behind, inside⟩ | after
  · exact ⟨by omega, Or.inl (Or.inr (by omega))⟩
  · refine ⟨by omega, Or.inr (Or.inr ⟨⟨by omega, by omega⟩, fun same => ?_⟩)⟩
    rw [same] at nameIn
    omega
  · exact ⟨by omega, Or.inl (Or.inl (by omega))⟩

/-- The fixes of two assertions are nested. -/
theorem FixPlace.nested (place : FixPlace source call name last fix)
    (otherPlace : FixPlace source other otherName otherLast otherFix)
    (lies : Cursor.LiesIn tree call) (otherLies : Cursor.LiesIn tree other)
    (placed : tree.WellPlaced source) (isCall : call.kind = .callExpression)
    (otherIsCall : other.kind = .callExpression) (differ : other ≠ call) :
    fix.span.Nested otherFix.span := by
  by_cases around : other ∈ call.ancestors
  · have notAround : call ∉ other.ancestors := fun above =>
      Cursor.address_ne_of_mem_ancestors
        (Cursor.mem_ancestors_of_mem_ancestors (List.mem_cons_of_mem call around) above) rfl
    exact (otherPlace.nested_of_not_around place otherLies lies placed isCall differ.symm
      notAround).symm
  · exact place.nested_of_not_around otherPlace lies otherLies placed otherIsCall differ around

end Places

end Tree

/-! ## All violations of a lint -/

/-- The fixes that two violations carry are nested. -/
def FixesNested (first second : Violation) : Prop :=
  ∀ fix ∈ first.fix, ∀ other ∈ second.fix, fix.span.Nested other.span

theorem FixesNested.symm {first second : Violation} (nested : FixesNested first second) :
    FixesNested second first :=
  fun fix fixMem other otherMem => (nested other otherMem fix fixMem).symm

section Lint

variable {parse : Source → Node} {reader : QueryReader} {read : ReadQuery} {source : Source}
  (readsRule : ReadsRule reader read) (wellFormed : (parse source).WellFormed source)

include readsRule wellFormed

/-- A report comes with the fix of a call of the tree. -/
theorem exists_fixPlace_of_mem_reports {report : Report}
    (member : report ∈ (Linter.lint parse [compiledListener read] source).reports
      (File.ofTree source (parse source))) :
    Cursor.LiesIn (parse source) report.node ∧ report.node.kind = .callExpression ∧
      ∃ fix, (info.violation source report).fix = some fix ∧ source.isValid fix.span = true ∧
        ∃ name last, FixPlace source report.node name last fix := by
  obtain ⟨⟨listener, node⟩, callMem, reportMem⟩ := List.mem_flatMap.mp member
  obtain ⟨listenerMem, captured⟩ := Linter.captured_of_mem_callsFor callMem
  obtain rfl := List.mem_singleton.mp listenerMem
  obtain ⟨inTree, isCall⟩ := readsRule.mem_cursors captured
  obtain ⟨replacement, edits, found, rfl⟩ := exists_eq_of_mem_respond reportMem
  obtain ⟨fix, isFix⟩ :=
    (rewrites_of_replacement? found).exists_isFixOf wellFormed inTree isCall
  exact ⟨Cursor.mem_cursors_iff.mp inTree, isCall, fix, congrArg Except.toOption isFix.merged,
    isFix.isValid, exists_fixPlace wellFormed inTree isCall found isFix.merged⟩

theorem pairwise_fixesNested :
    (Linter.lint parse [compiledListener read] source).violations.Pairwise FixesNested := by
  refine ((violations_perm readsRule parse source).pairwise_iff FixesNested.symm).mpr ?_
  rw [List.pairwise_map]
  -- No two reports are about the same node.
  have distinct : ((((Linter.lint parse [compiledListener read] source).reports
      (File.ofTree source (parse source))).map Report.node).map Cursor.address).Nodup := by
    obtain ⟨nodes, distinctNodes, -, nodesPerm⟩ := exists_reported_perm readsRule parse source
    exact (nodesPerm.map Cursor.address).nodup_iff.mpr distinctNodes
  rw [List.map_map, List.Nodup, List.pairwise_map] at distinct
  refine distinct.imp_of_mem ?_
  intro first second firstMem secondMem differ fix fixMem other otherMem
  obtain ⟨firstLies, firstCall, fix', fixEq, -, name, last, place⟩ :=
    exists_fixPlace_of_mem_reports readsRule wellFormed firstMem
  obtain ⟨secondLies, secondCall, other', otherEq, -, otherName, otherLast, otherPlace⟩ :=
    exists_fixPlace_of_mem_reports readsRule wellFormed secondMem
  obtain rfl := Option.some.inj (fixEq.symm.trans fixMem)
  obtain rfl := Option.some.inj (otherEq.symm.trans otherMem)
  refine place.nested otherPlace firstLies secondLies wellFormed.placed firstCall secondCall ?_
  exact fun same => differ (congrArg Cursor.address same.symm)

/-- Every violation carries a fix that replaces some of the source. -/
theorem exists_fix_of_mem_violations {violation : Violation}
    (member : violation ∈ (Linter.lint parse [compiledListener read] source).violations) :
    ∃ fix, violation.fix = some fix ∧ source.isValid fix.span = true ∧
      fix.span.start < fix.span.stop := by
  obtain ⟨report, reportMem, rfl⟩ :=
    List.mem_map.mp ((violations_perm readsRule parse source).mem_iff.mp member)
  obtain ⟨lies, -, fix, fixEq, valid, name, last, place⟩ :=
    exists_fixPlace_of_mem_reports readsRule wellFormed reportMem
  refine ⟨fix, fixEq, valid, ?_⟩
  have nonempty := place.name_nonempty lies wellFormed.placed
  have goesOn := place.name_stop_lt
  rw [place.start_eq, place.stop_eq]
  omega

end Lint

/-- The fixes of a run with only this rule, one for each violation, start at different
places, and each two of them are apart or one strictly contains the other.  A pass makes
those that lie in no other one and skips the rest. -/
theorem fixes_nest_and_pass_makes_outermost {parse : Source → Node} {reader : QueryReader}
    {read : ReadQuery} {plugin : Plugin} {config : Config} {source : Source}
    (readsRule : ReadsRule reader read)
    (enabled : Linter.enabledRules plugin config = .ok [rule])
    (wellFormed : (parse source).WellFormed source) :
    ∃ outcome fixes,
      Linter.run parse reader plugin config source = .ok outcome ∧
      outcome.violations.map Violation.fix = fixes.map some ∧
      fixes.Pairwise (fun first second => first.span.Nested second.span) ∧
      (∀ fix ∈ fixes, fix ∈ Fix.selected source fixes ↔
        ∀ other ∈ fixes, other ≠ fix → ¬ fix.span.Within other.span) ∧
      Replaced source ((Fix.selected source fixes).map Fix.asEdit)
        (Fix.applyAll source fixes) := by
  have fixesEq : (Linter.lint parse [compiledListener read] source).violations.map Violation.fix =
      (Linter.lint parse [compiledListener read] source).fixes.map some := by
    rw [Lint.fixes, List.map_filterMap_some_eq_filter_map_isSome, eq_comm, List.filter_eq_self]
    intro fix? member
    obtain ⟨violation, violationMem, rfl⟩ := List.mem_map.mp member
    obtain ⟨fix, fixEq, -⟩ := exists_fix_of_mem_violations readsRule wellFormed violationMem
    simp [fixEq]
  have nested : (Linter.lint parse [compiledListener read] source).fixes.Pairwise
      (fun first second => first.span.Nested second.span) :=
    List.pairwise_filterMap.mpr ((pairwise_fixesNested readsRule wellFormed).imp
      fun pair fix fixEq other otherEq => pair fix fixEq other otherEq)
  have replaces : ∀ fix ∈ (Linter.lint parse [compiledListener read] source).fixes,
      source.isValid fix.span = true ∧ fix.span.start < fix.span.stop := by
    intro fix member
    obtain ⟨violation, violationMem, fixEq⟩ := List.mem_filterMap.mp member
    obtain ⟨fix', fixEq', valid, nonempty⟩ :=
      exists_fix_of_mem_violations readsRule wellFormed violationMem
    obtain rfl := Option.some.inj (fixEq'.symm.trans fixEq)
    exact ⟨valid, nonempty⟩
  refine ⟨_, _, Linter.run_eq_ok enabled readsRule.compileAll_rule, ?_, nested, ?_,
    Fix.replaced_applyAll _ _⟩
  · rw [Linter.violations_runListeners]
    exact fixesEq
  · intro fix member
    exact Fix.mem_selected_iff_outermost (fun fix member => (replaces fix member).1)
      (fun fix member => (replaces fix member).2) nested member

/-- A test in which one assertion is an argument of the match in another one. -/
def nestedSource : Source :=
  "import a from 'ava';a(t=>t.true(/b/.test(s,t.false(/c/.test(u)))))".toList

/-- The tree of the test. -/
def nestedTree : Node :=
  sampleTree 65
    (nestedCall (.leaf .identifier 25 26) ⟨27, 31⟩ 65
      [nestedCall (.leaf .regexLiteral 32 35) ⟨36, 40⟩ 64
        [.leaf .identifier 41 42,
          nestedCall (.leaf .identifier 43 44) ⟨45, 50⟩ 63
            [nestedCall (.leaf .regexLiteral 51 54) ⟨55, 59⟩ 62 [.leaf .identifier 60 61]]]])

/-- A parser that knows the test. -/
def nestedParse (source : Source) : Node :=
  if source = nestedSource then nestedTree else .leaf .program 0 source.byteLength

theorem wellFormed_nestedParse : (nestedParse nestedSource).WellFormed nestedSource := by
  decide +kernel

/-- Both assertions of the nested sample have a fix, but a pass makes only the outer one. -/
theorem nested_pass_makes_outermost :
    ∃ outcome outer inner,
      Linter.run nestedParse Query.reader assertionRules ⟨["prefer-t-regex"], false⟩
          nestedSource = .ok outcome ∧
        outcome.violations.map Violation.fix = [some outer, some inner] ∧
        inner.span.StrictlyWithin outer.span ∧
        outer ∈ Fix.selected nestedSource [outer, inner] ∧
        inner ∉ Fix.selected nestedSource [outer, inner] := by
  have enabled :
      Linter.enabledRules assertionRules ⟨["prefer-t-regex"], false⟩ = .ok [rule] := rfl
  obtain ⟨outcome, fixes, ran, fixesEq, -, made, -⟩ :=
    fixes_nest_and_pass_makes_outermost readsRule_reader enabled wellFormed_nestedParse
  have found : ∃ outer inner,
      (Linter.lint nestedParse [compiledListener callQuery.asRead] nestedSource).violations.map
          Violation.fix = [some outer, some inner] ∧
        outer.span = ⟨27, 64⟩ ∧ inner.span = ⟨45, 62⟩ :=
    ⟨⟨⟨27, 64⟩, "regex(s, /b/"⟩, ⟨⟨45, 62⟩, "notRegex(u, /c/"⟩, by decide +kernel, rfl, rfl⟩
  obtain ⟨outer, inner, violationsEq, outerSpan, innerSpan⟩ := found
  have ran' := ran
  rw [Linter.run_eq_ok enabled readsRule_reader.compileAll_rule, Except.ok.injEq] at ran'
  rw [← ran', Linter.violations_runListeners] at fixesEq
  obtain rfl : fixes = [outer, inner] := by
    have := fixesEq.symm.trans violationsEq
    exact List.map_injective_iff.mpr (Option.some_injective Fix) this
  have inside : inner.span.StrictlyWithin outer.span := by
    rw [innerSpan, outerSpan]
    decide
  have differ : outer ≠ inner := fun same => inside.2 (congrArg Fix.span same.symm)
  refine ⟨outcome, outer, inner, ran, ?_, inside, ?_, ?_⟩
  · rw [← ran', Linter.violations_runListeners]
    exact violationsEq
  · refine (made outer List.mem_cons_self).mpr ?_
    simp only [List.mem_cons, List.not_mem_nil, or_false, forall_eq_or_imp, forall_eq]
    refine ⟨fun same => absurd rfl same, fun _ => ?_⟩
    rw [innerSpan, outerSpan]
    decide
  · intro innerMade
    exact (made inner (by simp)).mp innerMade outer List.mem_cons_self differ inside.1

end RegexAssertion

end AssertLint
