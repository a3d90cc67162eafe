import AssertLint.Proofs.Fix.Pass
import AssertLint.Proofs.Linter.Repetitions

/-!
# Copies of a listener

A listener that is there several times gets each node as often, one copy right behind
the other, if no two nodes that it listens to have the same range.  The order of the
matches tells nodes from each other before it tells copies from each other.  A listener
that makes at most one report about a node therefore makes every report several times in
a row, and of several equal fixes a pass makes the first one only, unless the fix
replaces nothing.
-/

namespace AssertLint

namespace Fix

variable {source : Source}

/-- Copies of a fix that cannot be made are skipped one by one. -/
theorem selectFrom_replicate_append {position : Nat} {fix : Fix}
    (skipped : (fix.span.start < position || !source.isValid fix.span) = true) (count : Nat)
    (others : List Fix) :
    selectFrom source position (List.replicate count fix ++ others) =
      selectFrom source position others := by
  induction count with
  | zero => rfl
  | succ count ih => rw [List.replicate_succ, List.cons_append, selectFrom, if_pos skipped, ih]

theorem selectFrom_flatMap_replicate {fixes : List Fix}
    (nonempty : ∀ fix ∈ fixes, fix.span.start < fix.span.stop) (count position : Nat) :
    selectFrom source position (fixes.flatMap (List.replicate (count + 1))) =
      selectFrom source position fixes := by
  induction fixes generalizing position with
  | nil => rfl
  | cons fix rest ih =>
      obtain ⟨fixNonempty, restNonempty⟩ := List.forall_mem_cons.mp nonempty
      rw [List.flatMap_cons]
      by_cases skipped : (fix.span.start < position || !source.isValid fix.span) = true
      · rw [selectFrom_replicate_append skipped, ih restNonempty, selectFrom, if_pos skipped]
      · -- The first copy is made, and the others start inside of it.
        have inside : (fix.span.start < fix.span.stop || !source.isValid fix.span) = true := by
          simp [fixNonempty]
        rw [List.replicate_succ, List.cons_append, selectFrom, if_neg skipped,
          selectFrom_replicate_append inside, ih restNonempty, selectFrom, if_neg skipped]

/-- Copies of fixes that replace something make no difference to a pass. -/
theorem applyAll_flatMap_replicate {fixes : List Fix}
    (nonempty : ∀ fix ∈ fixes, fix.span.start < fix.span.stop) (count : Nat) :
    applyAll source (fixes.flatMap (List.replicate (count + 1))) = applyAll source fixes := by
  have ordered : inOrder (fixes.flatMap (List.replicate (count + 1))) =
      (inOrder fixes).flatMap (List.replicate (count + 1)) :=
    stableSort_flatMap_replicate (comparesBy_decide_le _) fixes fun _ => count + 1
  have orderedNonempty : ∀ fix ∈ inOrder fixes, fix.span.start < fix.span.stop :=
    fun fix member => nonempty fix (mem_stableSort.mp member)
  rw [applyAll, selected, ordered, selectFrom_flatMap_replicate orderedNonempty, applyAll, selected]

end Fix

namespace Linter

namespace Match

theorem key_lt_iff {first second : Match} :
    first.key < second.key ↔
      first.node.span.start < second.node.span.start ∨
        first.node.span.start = second.node.span.start ∧
          (second.node.span.stop < first.node.span.stop ∨
            first.node.span.stop = second.node.span.stop ∧
              first.listener < second.listener) := by
  rw [← not_le, key_le_iff]
  omega

/-- No listener gets two nodes of the same range. -/
def OneEach (found : List Match) : Prop :=
  ∀ first ∈ found, ∀ second ∈ found, first.listener = second.listener →
    first.node.span = second.node.span → first = second

section Strict

variable {tree : Node} {found : List Match}

theorem pairwise_key_lt_inOrder (oneEach : OneEach found) :
    (inOrder found).Pairwise fun first second => first.key < second.key := by
  have distinct : (inOrder found).Nodup := by
    rw [List.nodup_iff_forall_not_duplicate]
    intro entry twice
    obtain ⟨other, differs, sameListener, sameSpan, among⟩ := isInterrupted_of_duplicate twice
    exact differs (oneEach other (among.subset (by simp)) entry (among.subset (by simp))
      sameListener sameSpan)
  refine (distinct.and (pairwise_key_inOrder found)).imp_of_mem ?_
  rintro first second firstMem secondMem ⟨differ, ordered⟩
  refine lt_of_le_of_ne ordered fun same => differ ?_
  obtain ⟨sameListener, sameSpan⟩ := key_eq_iff.mp same
  exact oneEach first (mem_of_mem_inOrder firstMem) second (mem_of_mem_inOrder secondMem)
    sameListener sameSpan

/-- Matches in strict order are known from what is among them. -/
theorem inOrder_eq_of_mem_iff (inTree : ∀ entry ∈ found, Cursor.LiesIn tree entry.node)
    (oneEach : OneEach found) {sorted : List Match}
    (strict : sorted.Pairwise fun first second => first.key < second.key)
    (memIff : ∀ entry, entry ∈ sorted ↔ entry ∈ found) : inOrder found = sorted := by
  have foundStrict := pairwise_key_lt_inOrder oneEach
  have irreflexive {entries : List Match}
      (ordered : entries.Pairwise fun first second => first.key < second.key) : entries.Nodup :=
    ordered.imp fun before same => absurd (congrArg key same) before.ne
  have permuted : (inOrder found).Perm sorted := by
    rw [List.perm_ext_iff_of_nodup (irreflexive foundStrict) (irreflexive strict)]
    intro entry
    rw [mem_inOrder_iff inTree, memIff]
  exact permuted.eq_of_pairwise (fun _ _ _ _ before behind => absurd before behind.asymm)
    foundStrict strict

end Strict

end Match

section Copies

variable {file : File} {listener : CompiledListener}

theorem mem_captures_iff {listeners : List CompiledListener} {entry : Match} :
    entry ∈ captures file listeners ↔
      ∃ listener, listeners[entry.listener]? = some listener ∧
        entry.node ∈ listener.query.capturedNodes file.source file.tree listener.capture := by
  constructor
  · exact exists_listener_of_mem_captures
  · rintro ⟨listener, found, captured⟩
    obtain ⟨bound, rfl⟩ := List.getElem?_eq_some_iff.mp found
    refine List.mem_flatten.mpr ⟨_, List.mem_mapIdx.mpr ⟨entry.listener, bound, rfl⟩, ?_⟩
    exact List.mem_map.mpr ⟨entry.node, captured, rfl⟩

theorem mem_captures_replicate_iff {count : Nat} {entry : Match} :
    entry ∈ captures file (List.replicate count listener) ↔
      entry.listener < count ∧
        entry.node ∈ listener.query.capturedNodes file.source file.tree listener.capture := by
  rw [mem_captures_iff]
  simp only [List.getElem?_replicate, Option.ite_none_right_eq_some, Option.some.injEq]
  constructor
  · rintro ⟨_, ⟨bound, rfl⟩, captured⟩
    exact ⟨bound, captured⟩
  · rintro ⟨bound, captured⟩
    exact ⟨listener, ⟨bound, rfl⟩, captured⟩

/-- Every match of a copy is a call of the listener. -/
theorem callsFor_captures_replicate (file : File) (listener : CompiledListener) (count : Nat) :
    callsFor (List.replicate count listener) (captures file (List.replicate count listener)) =
      (Match.inOrder (captures file (List.replicate count listener))).map
        fun entry => ⟨listener, entry.node⟩ := by
  rw [callsFor, ← List.filterMap_eq_map]
  apply List.filterMap_congr
  intro entry member
  obtain ⟨bound, -⟩ := mem_captures_replicate_iff.mp (Match.mem_of_mem_inOrder member)
  rw [List.getElem?_replicate_of_lt bound]
  rfl

/-- No two nodes of a file that a listener listens to have the same range. -/
def HasOwnRanges (file : File) (listener : CompiledListener) : Prop :=
  ∀ first ∈ listener.query.capturedNodes file.source file.tree listener.capture,
    ∀ second ∈ listener.query.capturedNodes file.source file.tree listener.capture,
      first.span = second.span → first = second

section OwnRanges

variable (inTree : StaysInTree file listener) (ownRanges : HasOwnRanges file listener)
  (count : Nat)

include ownRanges in
theorem oneEach_captures_replicate :
    Match.OneEach (captures file (List.replicate count listener)) := by
  intro first firstMem second secondMem sameListener sameSpan
  have sameNode := ownRanges _ (mem_captures_replicate_iff.mp firstMem).2 _
    (mem_captures_replicate_iff.mp secondMem).2 sameSpan
  cases first
  cases second
  rw [Match.mk.injEq]
  exact ⟨sameNode, sameListener⟩

include inTree ownRanges

/-- In the order of the matches the copies of a listener follow each other at each node. -/
theorem inOrder_captures_replicate :
    Match.inOrder (captures file (List.replicate count listener)) =
      (Match.inOrder (captures file [listener])).flatMap fun entry =>
        (List.range count).map fun copy => ⟨entry.node, copy⟩ := by
  have lie {count : Nat} : ∀ entry ∈ captures file (List.replicate count listener),
      Cursor.LiesIn file.tree entry.node := fun _ => liesIn_of_mem_captures fun copy member =>
    List.eq_of_mem_replicate member ▸ inTree
  have single (entry : Match) : entry ∈ Match.inOrder (captures file [listener]) ↔
      entry.listener < 1 ∧
        entry.node ∈ listener.query.capturedNodes file.source file.tree listener.capture := by
    rw [← List.replicate_one, Match.mem_inOrder_iff lie]
    exact mem_captures_replicate_iff
  apply Match.inOrder_eq_of_mem_iff lie
    (oneEach_captures_replicate ownRanges count)
  · rw [List.pairwise_flatMap]
    constructor
    · intro entry _
      rw [List.pairwise_map]
      refine List.pairwise_lt_range.imp fun before => ?_
      rw [Match.key_lt_iff]
      exact Or.inr ⟨rfl, Or.inr ⟨rfl, before⟩⟩
    · refine (Match.pairwise_key_lt_inOrder (oneEach_captures_replicate ownRanges 1)).imp_of_mem ?_
      intro first second firstMem secondMem before copy copyMem copy' copyMem'
      obtain ⟨place, -, rfl⟩ := List.mem_map.mp copyMem
      obtain ⟨place', -, rfl⟩ := List.mem_map.mp copyMem'
      -- Both nodes were handed to the one listener, so they differ in their ranges.
      have firstPlace := ((single first).mp firstMem).1
      have secondPlace := ((single second).mp secondMem).1
      simp only [Match.key_lt_iff] at before ⊢
      omega
  · intro entry
    rw [mem_captures_replicate_iff]
    simp only [List.mem_flatMap, List.mem_map, List.mem_range, single]
    constructor
    · rintro ⟨found, ⟨-, captured⟩, place, bound, rfl⟩
      exact ⟨bound, captured⟩
    · rintro ⟨bound, captured⟩
      exact ⟨⟨entry.node, 0⟩, ⟨Nat.zero_lt_one, captured⟩, entry.listener, bound, rfl⟩

/-- Copies of a listener get every node one after the other. -/
theorem callsFor_copies :
    callsFor (List.replicate count listener) (captures file (List.replicate count listener)) =
      (callsFor [listener] (captures file [listener])).flatMap (List.replicate count) := by
  have single := callsFor_captures_replicate file listener 1
  rw [List.replicate_one] at single
  rw [callsFor_captures_replicate, inOrder_captures_replicate inTree ownRanges, single,
    List.map_flatMap, List.flatMap_map]
  apply List.flatMap_congr
  intro entry _
  simp [Function.comp_def]

end OwnRanges

end Copies

/-- What gives at most one result gives it several times for several copies. -/
theorem flatMap_flatMap_replicate {α β : Type} {results : α → List β} {values : List α}
    (atMostOne : ∀ value ∈ values, (results value).length ≤ 1) (count : Nat) :
    (values.flatMap (List.replicate count)).flatMap results =
      (values.flatMap results).flatMap (List.replicate count) := by
  rw [List.flatMap_assoc, List.flatMap_assoc]
  apply List.flatMap_congr
  intro value member
  have short := atMostOne value member
  rw [List.flatMap_replicate]
  match results value, short with
  | [], _ => simp
  | [result], _ => simp

section Lints

variable {parse : Source → Node} {listener : CompiledListener} {source : Source}

theorem calls_lint (parse : Source → Node) (listeners : List CompiledListener)
    (source : Source) :
    (lint parse listeners source).calls =
      callsFor listeners (captures (File.ofTree source (parse source)) listeners) :=
  rfl

theorem violations_lint (parse : Source → Node) (listeners : List CompiledListener)
    (source : Source) :
    (lint parse listeners source).violations =
      stableSort mayPrecede ((lint parse listeners source).calls.flatMap
        (Call.violations (File.ofTree source (parse source)))) :=
  rfl

/-- With copies of a listener every violation comes as often as there are copies. -/
theorem violations_lint_replicate
    (inTree : StaysInTree (File.ofTree source (parse source)) listener)
    (ownRanges : HasOwnRanges (File.ofTree source (parse source)) listener)
    (atMostOne : ∀ node, (listener.respond (File.ofTree source (parse source)) node).length ≤ 1)
    (count : Nat) :
    (lint parse (List.replicate count listener) source).violations =
      (lint parse [listener] source).violations.flatMap (List.replicate count) := by
  have oneViolation : ∀ call ∈ (lint parse [listener] source).calls,
      (call.violations (File.ofTree source (parse source))).length ≤ 1 := by
    intro call member
    rw [calls_lint] at member
    obtain ⟨listenerMem, -⟩ := captured_of_mem_callsFor member
    rw [Call.violations, List.length_map, List.mem_singleton.mp listenerMem]
    exact atMostOne call.node
  have callsEq : (lint parse (List.replicate count listener) source).calls =
      (lint parse [listener] source).calls.flatMap (List.replicate count) := by
    rw [calls_lint, calls_lint]
    exact callsFor_copies inTree ownRanges count
  rw [violations_lint, violations_lint, callsEq, flatMap_flatMap_replicate oneViolation]
  exact stableSort_flatMap_replicate comparesBy_violationKey _ fun _ => count

theorem fixes_of_violations_eq {first second : Lint} {count : Nat}
    (repeated : second.violations = first.violations.flatMap (List.replicate count)) :
    second.fixes = first.fixes.flatMap (List.replicate count) := by
  rw [Lint.fixes, Lint.fixes, repeated, List.filterMap_eq_flatMap_toList,
    List.filterMap_eq_flatMap_toList]
  refine flatMap_flatMap_replicate (fun violation _ => ?_) count
  cases violation.fix <;> simp

end Lints

/-! ## Rules that are named several times -/

theorem enabledRules_replicate {plugin : Plugin} {name : String} {rule : Rule}
    (found : plugin.rule? name = some rule) (count : Nat) (fix : Bool) :
    enabledRules plugin ⟨List.replicate (count + 1) name, fix⟩ =
      .ok (List.replicate (count + 1) rule) := by
  rw [enabledRules_eq_ok_iff (by simp [List.replicate_succ])]
  induction count + 1 with
  | zero => exact List.Forall₂.nil
  | succ count ih => exact List.Forall₂.cons found ih

theorem compileAll_replicate {reader : QueryReader} {rule : Rule} {listener : CompiledListener}
    (compiled : compileAll reader [rule] = .ok [listener]) (count : Nat) :
    compileAll reader (List.replicate count rule) = .ok (List.replicate count listener) := by
  obtain ⟨own, others, isOwn, areOthers, joined⟩ := compileAll_cons_eq_ok_iff.mp compiled
  obtain rfl : [] = others := Except.ok.inj areOthers
  obtain rfl : [listener] = own := by rw [joined, List.append_nil]
  induction count with
  | zero => rfl
  | succ count ih =>
      exact compileAll_cons_eq_ok_iff.mpr ⟨_, _, isOwn, ih, rfl⟩

end Linter

end AssertLint
