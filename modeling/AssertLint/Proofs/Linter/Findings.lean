import AssertLint.Proofs.Linter.Independence
import AssertLint.Proofs.Text.Ranges

/-!
# From captures to violations

Captures of several listeners, in whatever order and however often the queries
deliver them, become calls, calls make reports, and reports become violations.  On
the way there is a sort, a removal of repetitions and another sort.  None of them
loses anything: every captured node reaches its listener, outer nodes before inner
ones and otherwise from left to right, and every report becomes one violation.
-/

namespace AssertLint

namespace Linter

namespace Match

theorem pairwise_key_inOrder (found : List Match) :
    (inOrder found).Pairwise fun first second => first.key ≤ second.key :=
  (pairwise_stableSort comparesBy_key found).sublist (dropRepeated_sublist _)

theorem not_strictlyWithin_of_key_le {first second : Match} (ordered : first.key ≤ second.key) :
    ¬ first.node.span.StrictlyWithin second.node.span := by
  rintro ⟨⟨startLe, stopLe⟩, differ⟩
  rw [key_le_iff] at ordered
  apply differ
  rw [Span.mk.injEq]
  omega

/-- Of two nodes that are apart the left one comes first, unless the right one is
empty. -/
theorem stop_le_start_of_key_le {first second : Match} (ordered : first.key ≤ second.key)
    (nonempty : second.node.span.start < second.node.span.stop)
    (apart : first.node.span.Apart second.node.span) :
    first.node.span.stop ≤ second.node.span.start := by
  rw [key_le_iff] at ordered
  unfold Span.Apart at apart
  omega

theorem exists_same_of_mem {entry : Match} {found : List Match} (member : entry ∈ found) :
    ∃ kept ∈ dropRepeated found, entry.same kept = true := by
  induction found with
  | nil => simp at member
  | cons first rest ih =>
      rw [dropRepeated_cons]
      split
      · next repeated =>
          rcases List.mem_cons.mp member with rfl | later
          · -- An entry is dropped only for the one kept right behind it.
            cases isHead : (dropRepeated rest).head? with
            | none => simp [isHead] at repeated
            | some kept =>
                exact ⟨kept, List.mem_of_head? isHead, by simpa [isHead] using repeated⟩
          · exact ih later
      · rcases List.mem_cons.mp member with rfl | later
        · exact ⟨entry, List.mem_cons_self, same_self entry⟩
        · obtain ⟨kept, keptMem, same⟩ := ih later
          exact ⟨kept, List.mem_cons_of_mem first keptMem, same⟩

theorem eq_of_same {tree : Node} {first second : Match} (same : first.same second = true)
    (firstIn : Cursor.LiesIn tree first.node) (secondIn : Cursor.LiesIn tree second.node) :
    first = second := by
  simp only [Match.same, Bool.and_eq_true, decide_eq_true_eq] at same
  have sameNode := firstIn.eq_of_address_eq secondIn same.1
  cases first
  cases second
  rw [Match.mk.injEq]
  exact ⟨sameNode, same.2⟩

/-- Putting the matches of a tree in order keeps all of them. -/
theorem mem_inOrder_iff {tree : Node} {found : List Match}
    (inTree : ∀ entry ∈ found, Cursor.LiesIn tree entry.node) {entry : Match} :
    entry ∈ inOrder found ↔ entry ∈ found := by
  constructor
  · exact mem_of_mem_inOrder
  · intro member
    -- `same` compares addresses, and a tree has one node at each address.
    obtain ⟨kept, keptMem, same⟩ := exists_same_of_mem (mem_stableSort.mpr member)
    have keptIn := inTree kept (mem_of_mem_inOrder keptMem)
    rw [eq_of_same same (inTree entry member) keptIn]
    exact keptMem

/-- A call hands the node of a match to the listener at its place. -/
def HandledBy (listeners : List CompiledListener) (entry : Match) (call : Call) : Prop :=
  listeners[entry.listener]? = some call.listener ∧ call.node = entry.node

/-- Matches that stand for exactly those found, in the order in which nodes are handed
to listeners. -/
structure HandlesExactly (found handled : List Match) : Prop where
  exactly : ∀ entry, entry ∈ handled ↔ entry ∈ found
  inOrder : handled.Pairwise fun first second =>
    first.node.span.start < second.node.span.start ∨
      first.node.span.start = second.node.span.start ∧
        (second.node.span.stop < first.node.span.stop ∨
          first.node.span.stop = second.node.span.stop ∧ first.listener ≤ second.listener)
  outerFirst : handled.Pairwise fun first second =>
    ¬ first.node.span.StrictlyWithin second.node.span
  leftFirst : handled.Pairwise fun first second =>
    second.node.span.start < second.node.span.stop →
      first.node.span.Apart second.node.span →
        first.node.span.stop ≤ second.node.span.start

theorem handlesExactly_inOrder {tree : Node} {found : List Match}
    (inTree : ∀ entry ∈ found, Cursor.LiesIn tree entry.node) :
    HandlesExactly found (inOrder found) where
  exactly := fun _ => mem_inOrder_iff inTree
  inOrder := (pairwise_key_inOrder found).imp key_le_iff.mp
  outerFirst := (pairwise_key_inOrder found).imp not_strictlyWithin_of_key_le
  leftFirst := (pairwise_key_inOrder found).imp stop_le_start_of_key_le

end Match

theorem forall₂_handledBy {listeners : List CompiledListener} {entries : List Match}
    (placed : ∀ entry ∈ entries, entry.listener < listeners.length) :
    List.Forall₂ (Match.HandledBy listeners) entries
      (entries.filterMap fun entry => listeners[entry.listener]?.map (⟨·, entry.node⟩)) := by
  induction entries with
  | nil => exact List.Forall₂.nil
  | cons entry rest ih =>
      obtain ⟨bound, restPlaced⟩ := List.forall_mem_cons.mp placed
      have found := List.getElem?_eq_getElem bound
      rw [List.filterMap_cons_some (by rw [found, Option.map_some])]
      exact List.Forall₂.cons ⟨found, rfl⟩ (ih restPlaced)

/-! ## Reports and violations -/

/-- The reports that a call makes, each with its rule. -/
def Call.findings (file : File) (call : Call) : List (RuleInfo × Report) :=
  (call.listener.respond file call.node).map (call.listener.info, ·)

theorem flatMap_violations_eq (file : File) (calls : List Call) :
    calls.flatMap (·.violations file) =
      (calls.flatMap (·.findings file)).map fun finding =>
        finding.1.violation file.source finding.2 := by
  rw [List.map_flatMap]
  apply List.flatMap_congr
  intro call _
  rw [Call.violations, Call.findings, List.map_map]
  rfl

/-- Violations that stand for reports one by one, in order of ranges and names of rules;
reports of one rule about one range stay as they were made. -/
structure ReportsAll (source : Source) (findings : List (RuleInfo × Report))
    (violations : List Violation) : Prop where
  perm : violations.Perm
    (findings.map fun finding => finding.1.violation source finding.2)
  inOrder : violations.Pairwise fun first second =>
    first.span.start < second.span.start ∨
      first.span.start = second.span.start ∧
        (first.span.stop < second.span.stop ∨
          first.span.stop = second.span.stop ∧ first.ruleName ≤ second.ruleName)
  stable : ∀ name span,
    violations.filter (fun violation => violation.ruleName = name ∧ violation.span = span) =
      (findings.filter fun finding =>
        finding.1.name = name ∧ finding.2.node.span = span).map fun finding =>
          finding.1.violation source finding.2

theorem violationKey_eq_iff {violation : Violation} {name : String} {span : Span} :
    violationKey violation = toLex (span.start, toLex (span.stop, name)) ↔
      violation.ruleName = name ∧ violation.span = span := by
  cases span
  cases violation with
  | mk ruleName messageId message violationSpan start stop kind fix =>
      cases violationSpan
      simp [violationKey, and_comm, and_assoc]

theorem reportsAll_ofCalls (file : File) (calls : List Call) :
    ReportsAll file.source (calls.flatMap (·.findings file))
      (Lint.ofCalls file calls).violations where
  perm := by
    rw [← flatMap_violations_eq]
    exact stableSort_perm _ _
  inOrder := (pairwise_stableSort comparesBy_violationKey _).imp violationKey_le_iff.mp
  stable := by
    intro name span
    have atKey := filter_key_stableSort comparesBy_violationKey
      (calls.flatMap (·.violations file)) (toLex (span.start, toLex (span.stop, name)))
    simp only [violationKey_eq_iff] at atKey
    rw [Lint.ofCalls, atKey, flatMap_violations_eq, List.filter_map]
    rfl

/-- The outcome of a lint whose queries deliver the given captures. -/
def lintDelivered (file : File) (listeners : List CompiledListener) (found : List Match) : Lint :=
  Lint.ofCalls file (callsFor listeners found)

theorem lint_eq_lintDelivered (parse : Source → Node) (listeners : List CompiledListener)
    (source : Source) :
    lint parse listeners source =
      lintDelivered (File.ofTree source (parse source)) listeners
        (captures (File.ofTree source (parse source)) listeners) :=
  rfl

/-- However captures are delivered, the calls made are for exactly the captured nodes and
their listeners, in order; and the violations stand one by one for the reports that these
calls make, with or without a fix, in order and stable. -/
theorem captures_handled_and_reported {file : File} {listeners : List CompiledListener}
    {found : List Match} (placed : ∀ entry ∈ found, entry.listener < listeners.length)
    (inTree : ∀ entry ∈ found, Cursor.LiesIn file.tree entry.node) :
    ∃ handled,
      Match.HandlesExactly found handled ∧
      List.Forall₂ (Match.HandledBy listeners) handled (lintDelivered file listeners found).calls ∧
      ReportsAll file.source
        ((lintDelivered file listeners found).calls.flatMap (·.findings file))
        (lintDelivered file listeners found).violations := by
  refine ⟨Match.inOrder found, Match.handlesExactly_inOrder inTree, ?_,
    reportsAll_ofCalls file _⟩
  exact forall₂_handledBy fun entry member => placed entry (Match.mem_of_mem_inOrder member)

/-! ## A sample delivery -/

def sampleFile : File := File.ofTree ['x'] (sampleParse ['x'])

def sampleListeners : List CompiledListener :=
  [sampleListener "prepend" .nodeStart "b", sampleListener "append" .nodeEnd "a"]

/-- The captures of two listeners delivered twice, those of one between those of the
other. -/
def sampleDelivery : List Match :=
  captures sampleFile sampleListeners ++ captures sampleFile sampleListeners

theorem sample_captures_handled_and_reported :
    sampleDelivery.map (·.listener) = [0, 1, 0, 1] ∧
      (lintDelivered sampleFile sampleListeners sampleDelivery).violations =
        (lint sampleParse sampleListeners ['x']).violations ∧
      (lint sampleParse sampleListeners ['x']).violations.map (·.ruleName) =
        ["append", "prepend"] ∧
      ∃ handled,
        Match.HandlesExactly sampleDelivery handled ∧
        List.Forall₂ (Match.HandledBy sampleListeners) handled
          (lintDelivered sampleFile sampleListeners sampleDelivery).calls ∧
        ReportsAll ['x']
          ((lintDelivered sampleFile sampleListeners sampleDelivery).calls.flatMap
            (·.findings sampleFile))
          (lint sampleParse sampleListeners ['x']).violations := by
  have delivered : ∀ entry ∈ sampleDelivery, entry ∈ captures sampleFile sampleListeners :=
    fun entry member => (List.mem_append.mp member).elim id id
  have alike : (lintDelivered sampleFile sampleListeners sampleDelivery).violations =
      (lint sampleParse sampleListeners ['x']).violations := by
    rw [lint_eq_lintDelivered]
    decide +kernel
  have inTree : ∀ listener ∈ sampleListeners, StaysInTree sampleFile listener := by
    simp only [sampleListeners, List.forall_mem_cons, List.not_mem_nil, false_implies,
      implies_true, and_true]
    exact ⟨fun _ => Query.liesIn_of_mem_capturedNodes, fun _ => Query.liesIn_of_mem_capturedNodes⟩
  refine ⟨by decide +kernel, alike, by decide +kernel, ?_⟩
  rw [← alike]
  exact captures_handled_and_reported
    (fun entry member => listener_lt_of_mem_captures (delivered entry member))
    (fun entry member => liesIn_of_mem_captures inTree (delivered entry member))

end Linter

end AssertLint
