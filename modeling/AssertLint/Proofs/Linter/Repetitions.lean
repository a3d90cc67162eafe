import AssertLint.Proofs.Linter.Findings
import Mathlib.Data.List.Chain
import Mathlib.Data.List.Duplicate
import Mathlib.Data.List.NodupEquivFin

/-!
# Captures that are delivered again

A match is dropped when it is the same as the one before it in order.  Matches of
one listener and one range stay in the order in which they are delivered, so two
deliveries of a node are brought together unless the listener was handed another
node of that range in between.  A statement and the expression that it consists of
are such nodes.
-/

namespace AssertLint

namespace Linter

namespace Match

/-- A match stands at one place of a list and at no other. -/
def ListedOnce (entries : List Match) (entry : Match) : Prop :=
  ∃! place : Nat, entries[place]? = some entry

/-- A match is delivered again after the same listener got another node with the
same range. -/
def IsInterrupted (found : List Match) (entry : Match) : Prop :=
  ∃ other, other ≠ entry ∧ other.listener = entry.listener ∧
    other.node.span = entry.node.span ∧ [entry, other, entry].Sublist found

theorem key_eq_iff {first second : Match} :
    first.key = second.key ↔
      first.listener = second.listener ∧ first.node.span = second.node.span := by
  obtain ⟨⟨⟨kind, field, ⟨start, stop⟩, children⟩, ascents⟩, listener⟩ := first
  obtain ⟨⟨⟨kind', field', ⟨start', stop'⟩, children'⟩, ascents'⟩, listener'⟩ := second
  simp only [key, Cursor.span, EmbeddingLike.apply_eq_iff_eq, Prod.mk.injEq, Span.mk.injEq]
  tauto

theorem isChain_dropRepeated (found : List Match) :
    (dropRepeated found).IsChain fun first second => first.same second = false := by
  induction found with
  | nil => exact List.IsChain.nil
  | cons first rest ih =>
      rw [dropRepeated_cons]
      split
      · exact ih
      · next differs =>
          cases kept : dropRepeated rest with
          | nil => exact List.IsChain.singleton first
          | cons second others =>
              rw [kept] at differs ih
              exact List.IsChain.cons_cons (by simpa using differs) ih

section Tree

variable {tree : Node} {found : List Match}

/-- What has no repetitions side by side survives when those are dropped. -/
theorem sublist_dropRepeated (inTree : ∀ entry ∈ found, Cursor.LiesIn tree entry.node)
    {chosen : List Match} (differ : chosen.IsChain fun first second => first ≠ second)
    (among : chosen.Sublist found) : chosen.Sublist (dropRepeated found) := by
  induction among with
  | slnil => exact List.Sublist.slnil
  | @cons chosen rest first among ih =>
      have kept := ih (fun entry member => inTree entry (List.mem_cons_of_mem first member)) differ
      rw [dropRepeated_cons]
      split
      · exact kept
      · exact kept.cons first
  | @cons_cons chosen rest first among ih =>
      have restIn : ∀ entry ∈ rest, Cursor.LiesIn tree entry.node :=
        fun entry member => inTree entry (List.mem_cons_of_mem first member)
      have kept := ih restIn differ.tail
      rw [dropRepeated_cons]
      cases keptEq : dropRepeated rest with
      | nil =>
          rw [keptEq] at kept
          exact kept.cons_cons first
      | cons second others =>
          rw [keptEq] at kept
          split
          · next repeated =>
              -- The entry is dropped for an equal one, behind which the others are found.
              have secondIn := restIn second (mem_of_mem_dropRepeated (by simp [keptEq]))
              obtain rfl := eq_of_same (by simpa using repeated)
                (inTree first List.mem_cons_self) secondIn
              cases kept with
              | cons _ behind => exact behind.cons_cons first
              | cons_cons _ behind => exact absurd rfl (List.isChain_cons_cons.mp differ).1
          · exact kept.cons_cons first

theorem sublist_stableSort_iff {entry other : Match} (sameKey : other.key = entry.key) :
    [entry, other, entry].Sublist (stableSort mayPrecede found) ↔
      [entry, other, entry].Sublist found := by
  have selected : [entry, other, entry].filter (fun match' => match'.key = entry.key) =
      [entry, other, entry] := by
    simp [sameKey]
  have through (entries : List Match) : [entry, other, entry].Sublist entries ↔
      [entry, other, entry].Sublist
        (entries.filter fun match' => match'.key = entry.key) := by
    constructor
    · intro among
      have filtered := among.filter fun match' => decide (match'.key = entry.key)
      rwa [selected] at filtered
    · exact fun among => among.trans List.filter_sublist
  rw [through, through found, filter_key_stableSort comparesBy_key]

/-- Between two places of an entry, in order and without repetitions side by side, there
is another entry with its key. -/
theorem exists_between_of_duplicate {kept : List Match} {entry : Match}
    (sorted : kept.Pairwise fun first second => first.key ≤ second.key)
    (differ : kept.IsChain fun first second => first.same second = false)
    (twice : List.Duplicate entry kept) :
    ∃ other, entry.same other = false ∧ other.key = entry.key ∧
      [entry, other, entry].Sublist kept := by
  induction twice with
  | @cons_mem rest again =>
      cases rest with
      | nil => simp at again
      | cons other rest =>
          have differs := (List.isChain_cons_cons.mp differ).1
          have later : entry ∈ rest := by
            rcases List.mem_cons.mp again with rfl | later
            · simp [same_self] at differs
            · exact later
          obtain ⟨entryFirst, restSorted⟩ := List.pairwise_cons.mp sorted
          have sameKey : other.key = entry.key :=
            le_antisymm ((List.pairwise_cons.mp restSorted).1 entry later)
              (entryFirst other List.mem_cons_self)
          exact ⟨other, differs, sameKey,
            ((List.singleton_sublist.mpr later).cons_cons other).cons_cons entry⟩
  | @cons_duplicate first rest _ ih =>
      obtain ⟨other, differs, sameKey, among⟩ :=
        ih (List.pairwise_cons.mp sorted).2 differ.tail
      exact ⟨other, differs, sameKey, among.cons first⟩

theorem isInterrupted_of_duplicate {entry : Match}
    (twice : List.Duplicate entry (inOrder found)) : IsInterrupted found entry := by
  obtain ⟨other, differs, sameKey, among⟩ :=
    exists_between_of_duplicate (pairwise_key_inOrder found) (isChain_dropRepeated _) twice
  obtain ⟨sameListener, sameSpan⟩ := key_eq_iff.mp sameKey
  refine ⟨other, ?_, sameListener, sameSpan, ?_⟩
  · rintro rfl
    simp [same_self] at differs
  · exact (sublist_stableSort_iff sameKey).mp (among.trans (dropRepeated_sublist _))

theorem duplicate_of_isInterrupted (inTree : ∀ entry ∈ found, Cursor.LiesIn tree entry.node)
    {entry : Match} (interrupted : IsInterrupted found entry) :
    List.Duplicate entry (inOrder found) := by
  obtain ⟨other, differs, sameListener, sameSpan, among⟩ := interrupted
  have sameKey := key_eq_iff.mpr ⟨sameListener, sameSpan⟩
  have sortedIn : ∀ kept ∈ stableSort mayPrecede found, Cursor.LiesIn tree kept.node :=
    fun kept member => inTree kept (mem_stableSort.mp member)
  have kept := sublist_dropRepeated sortedIn (by simp [differs, differs.symm])
    ((sublist_stableSort_iff sameKey).mpr among)
  have twice : [entry, entry].Sublist [entry, other, entry] :=
    ((List.Sublist.refl [entry]).cons other).cons_cons entry
  exact List.duplicate_iff_sublist.mpr (twice.trans kept)

theorem listedOnce_iff {entries : List Match} {entry : Match} (member : entry ∈ entries) :
    ListedOnce entries entry ↔ ¬ List.Duplicate entry entries := by
  rw [List.duplicate_iff_exists_distinct_get]
  constructor
  · rintro ⟨only, -, isOnly⟩ ⟨first, second, before, atFirst, atSecond⟩
    have firstEq := isOnly first (by simp [atFirst])
    have secondEq := isOnly second (by simp [atSecond])
    omega
  · intro once
    obtain ⟨place, found⟩ := List.mem_iff_getElem?.mp member
    refine ⟨place, found, ?_⟩
    intro other otherFound
    obtain ⟨bound, isEntry⟩ := List.getElem?_eq_some_iff.mp found
    obtain ⟨otherBound, isEntry'⟩ := List.getElem?_eq_some_iff.mp otherFound
    by_contra differs
    rcases Nat.lt_or_gt_of_ne differs with before | behind
    · exact once ⟨⟨other, otherBound⟩, ⟨place, bound⟩, before, isEntry'.symm, isEntry.symm⟩
    · exact once ⟨⟨place, bound⟩, ⟨other, otherBound⟩, behind, isEntry.symm, isEntry'.symm⟩

/-- Whatever is delivered is kept, and nothing else.  It is kept once exactly if it is
never delivered again behind another node with its range, and so always where a listener
gets at most one node with each range. -/
theorem kept_once_iff_not_interrupted
    (inTree : ∀ entry ∈ found, Cursor.LiesIn tree entry.node) :
    (∀ entry, entry ∈ inOrder found ↔ entry ∈ found) ∧
    (∀ entry ∈ found, ListedOnce (inOrder found) entry ↔ ¬ IsInterrupted found entry) ∧
    ((∀ first ∈ found, ∀ second ∈ found, first.listener = second.listener →
        first.node.span = second.node.span → first = second) →
      ∀ entry ∈ found, ListedOnce (inOrder found) entry) := by
  have once : ∀ entry ∈ found,
      ListedOnce (inOrder found) entry ↔ ¬ IsInterrupted found entry := by
    intro entry member
    rw [listedOnce_iff ((mem_inOrder_iff inTree).mpr member)]
    exact not_congr ⟨isInterrupted_of_duplicate, duplicate_of_isInterrupted inTree⟩
  refine ⟨fun entry => mem_inOrder_iff inTree, once, ?_⟩
  intro oneEach entry member
  apply (once entry member).mpr
  rintro ⟨other, differs, sameListener, sameSpan, among⟩
  exact differs (oneEach other (among.subset (by simp)) entry member sameListener sameSpan)

end Tree

end Match

/-! ## A statement and the name that it consists of -/

/-- A parser that takes every source for a name that stands as a statement. -/
def statementParse (source : Source) : Node :=
  .ofChildren .program 0 source.byteLength
    [.ofChildren .expressionStatement 0 source.byteLength
      [.leaf .identifier 0 source.byteLength]]

/-- The node at a place of the tree, as the first listener gets it. -/
def statementMatch (place : Nat) : Match :=
  ⟨(statementParse ['a']).cursors.getD place default, 0⟩

theorem statementMatch_liesIn (place : Nat)
    (bound : place < (statementParse ['a']).cursors.length) :
    Cursor.LiesIn (statementParse ['a']) (statementMatch place).node := by
  apply Cursor.mem_cursors_iff.mp
  simp [statementMatch, bound]

theorem statementMatch_ne : statementMatch 2 ≠ statementMatch 1 := by
  intro same
  have sameKind : (statementMatch 2).node.kind = (statementMatch 1).node.kind := by rw [same]
  exact absurd sameKind (by decide)

/-- Delivered around its name, the statement is listed twice.  Delivered twice before it,
the statement is listed once. -/
theorem Match.kept_once_statement :
    ¬ ListedOnce (inOrder [statementMatch 1, statementMatch 2, statementMatch 1])
      (statementMatch 1) ∧
    ListedOnce (inOrder [statementMatch 1, statementMatch 1, statementMatch 2])
      (statementMatch 1) := by
  have statementIn := statementMatch_liesIn 1 (by decide)
  have nameIn := statementMatch_liesIn 2 (by decide)
  have aroundIn : ∀ entry ∈ [statementMatch 1, statementMatch 2, statementMatch 1],
      Cursor.LiesIn (statementParse ['a']) entry.node := by
    simp [statementIn, nameIn]
  have beforeIn : ∀ entry ∈ [statementMatch 1, statementMatch 1, statementMatch 2],
      Cursor.LiesIn (statementParse ['a']) entry.node := by
    simp [statementIn, nameIn]
  constructor
  · rw [(kept_once_iff_not_interrupted aroundIn).2.1 _ List.mem_cons_self, not_not]
    exact ⟨statementMatch 2, statementMatch_ne, rfl, rfl, List.Sublist.refl _⟩
  · rw [(kept_once_iff_not_interrupted beforeIn).2.1 _ List.mem_cons_self]
    rintro ⟨other, differs, -, -, among⟩
    simp [List.cons_sublist_cons', differs, statementMatch_ne.symm] at among

/-- A query whose two descriptions capture a statement and the name that it consists
of. -/
def statementQueryText : String :=
  "(expression_statement (identifier) @x) @x (expression_statement (identifier) @x) @x"

/-- The first or second description, by its place in the text. -/
def statementPattern (offset : Nat) : Query.Pattern :=
  .node (some .expressionStatement) none
    [.node (some .identifier) none [] ["x"] (offset + 22)] ["x"] offset

/-- The query as data. -/
def statementQuery : Query :=
  ⟨[(some (statementPattern 0), []), (some (statementPattern 42), [])], ["x"]⟩

def statementListener : CompiledListener :=
  { info := ⟨"statements", "", "", false, []⟩
    index := 0
    respond := fun file node => [Described.ReportPlan.report ⟨"found", [], none⟩ file node]
    query := statementQuery.asRead
    capture := "x" }

/-- The statement and the name are each handed to the listener for both descriptions: the
second time neither stands beside its first. -/
theorem lint_calls_statement_twice :
    Query.reader statementQueryText = .ok statementListener.query ∧
    ((lint statementParse [statementListener] ['a']).calls.map fun call => call.node.kind) =
      [.expressionStatement, .identifier, .expressionStatement, .identifier] ∧
    ∃ entry ∈ captures (File.ofTree ['a'] (statementParse ['a'])) [statementListener],
      ¬ Match.ListedOnce
        (Match.inOrder
          (captures (File.ofTree ['a'] (statementParse ['a'])) [statementListener])) entry := by
  have capturesEq : captures (File.ofTree ['a'] (statementParse ['a'])) [statementListener] =
      [statementMatch 1, statementMatch 2, statementMatch 1, statementMatch 2] := rfl
  have compiled : Query.compile statementQueryText = .ok statementQuery := by decide +kernel
  have read : Query.reader statementQueryText = .ok statementListener.query := by
    rw [Query.reader, compiled]
    rfl
  refine ⟨read, by decide +kernel, statementMatch 1, by simp [capturesEq], ?_⟩
  rw [capturesEq]
  rintro ⟨place, -, isOnly⟩
  have first := isOnly 0 rfl
  have again := isOnly 2 rfl
  omega

end Linter

end AssertLint
