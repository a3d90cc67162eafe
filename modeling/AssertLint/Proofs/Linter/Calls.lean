import AssertLint.Proofs.Linter.Violations
import AssertLint.Proofs.Query.Captured
import Mathlib.Data.Prod.Lex
import Mathlib.Data.String.Basic

/-!
# The calls of some of the listeners

The captures of all listeners are put in one order, and repetitions are dropped
where they stand side by side.  The order ends with the place of the listener, so
equal captures of a listener are never torn apart by another listener, and the
calls of listeners that follow each other are those that they get by themselves.
-/

namespace AssertLint

namespace Linter

namespace Match

/-- What matches are ordered by. -/
def key (entry : Match) : ℕ ×ₗ ℕᵒᵈ ×ₗ ℕ :=
  toLex (entry.node.span.start, toLex (OrderDual.toDual entry.node.span.stop, entry.listener))

theorem key_le_iff {first second : Match} :
    first.key ≤ second.key ↔
      first.node.span.start < second.node.span.start ∨
        first.node.span.start = second.node.span.start ∧
          (second.node.span.stop < first.node.span.stop ∨
            first.node.span.stop = second.node.span.stop ∧
              first.listener ≤ second.listener) := by
  simp only [key, Prod.Lex.toLex_le_toLex, OrderDual.toDual_lt_toDual, OrderDual.toDual_inj]

theorem comparesBy_key : ComparesBy mayPrecede key := by
  intro first second
  rw [key_le_iff, mayPrecede]
  split
  · next differ => simp [differ]
  · next same =>
      rw [not_not] at same
      split
      · next differ => simp [same, differ]
      · next sameStop =>
          rw [not_not] at sameStop
          simp [same, sameStop]

theorem listener_eq_of_key_eq {first second : Match} (same : first.key = second.key) :
    first.listener = second.listener :=
  congrArg (fun value => (ofLex (ofLex value).2).2) same

theorem key_eq_of_same {first second : Match} (same : first.same second = true)
    (spans : first.node.address = second.node.address → first.node.span = second.node.span) :
    first.key = second.key := by
  simp only [Match.same, Bool.and_eq_true, decide_eq_true_eq] at same
  rw [key, key, spans same.1, same.2]

/-- Matches of one node have the range of that node. -/
def OneNode (found : List Match) : Prop :=
  ∀ first ∈ found, ∀ second ∈ found, first.node.address = second.node.address →
    first.node.span = second.node.span

theorem OneNode.sublist {found part : List Match} (oneNode : OneNode found)
    (isPart : part.Sublist found) : OneNode part :=
  fun first firstMem second secondMem =>
    oneNode first (isPart.subset firstMem) second (isPart.subset secondMem)

theorem dropRepeated_cons (first : Match) (rest : List Match) :
    dropRepeated (first :: rest) =
      if (dropRepeated rest).head?.any first.same then dropRepeated rest
      else first :: dropRepeated rest := by
  rw [dropRepeated]
  cases dropRepeated rest <;> rfl

/-- In a list in order behind a selected match, the first match that is the same
comes before all matches of other listeners. -/
theorem any_head?_filter {first : Match} {kept : List Match} (oneNode : OneNode (first :: kept))
    (inOrder : (first :: kept).Pairwise fun one other => one.key ≤ other.key)
    {selected : Nat → Bool} (chosen : selected first.listener = true) :
    (kept.filter fun entry => selected entry.listener).head?.any first.same =
      kept.head?.any first.same := by
  cases kept with
  | nil => rfl
  | cons second others =>
      cases chosenSecond : selected second.listener with
      | true =>
          rw [List.filter_cons_of_pos (by simp [chosenSecond]), List.head?_cons, List.head?_cons]
      | false =>
          have keyDiffers : first.key ≠ second.key := by
            intro same
            rw [listener_eq_of_key_eq same, chosenSecond] at chosen
            simp at chosen
          have differs : ∀ entry ∈ second :: others, first.same entry = false := by
            intro entry member
            rw [← Bool.not_eq_true]
            intro same
            have entryEq := key_eq_of_same same
              (oneNode first List.mem_cons_self entry (List.mem_cons_of_mem first member))
            obtain ⟨firstLe, restInOrder⟩ := List.pairwise_cons.mp inOrder
            have secondLe : second.key ≤ entry.key := by
              rcases List.mem_cons.mp member with rfl | later
              · exact le_refl _
              · exact (List.pairwise_cons.mp restInOrder).1 entry later
            exact keyDiffers (le_antisymm (firstLe second List.mem_cons_self)
              (secondLe.trans entryEq.ge))
          have filteredDiffers : ∀ entry ∈ (second :: others).filter
              (fun entry => selected entry.listener), first.same entry = false :=
            fun entry member => differs entry (List.mem_filter.mp member).1
          rw [List.head?_cons, Option.any_some, differs second List.mem_cons_self]
          cases next : ((second :: others).filter fun entry => selected entry.listener) with
          | nil => rfl
          | cons entry rest => exact filteredDiffers entry (by simp [next])

/-- Dropping repetitions in a list in order and selecting listeners can be
exchanged. -/
theorem filter_dropRepeated {found : List Match} (oneNode : OneNode found)
    (inOrder : found.Pairwise fun first second => first.key ≤ second.key)
    (selected : Nat → Bool) :
    (dropRepeated found).filter (fun entry => selected entry.listener) =
      dropRepeated (found.filter fun entry => selected entry.listener) := by
  induction found with
  | nil => rfl
  | cons first rest ih =>
      have restEq := ih (oneNode.sublist (List.sublist_cons_self first rest))
        (List.pairwise_cons.mp inOrder).2
      have keptSublist : (first :: dropRepeated rest).Sublist (first :: rest) :=
        (dropRepeated_sublist rest).cons_cons first
      rw [dropRepeated_cons]
      cases chosen : selected first.listener with
      | false =>
          rw [List.filter_cons_of_neg (by simp [chosen]), ← restEq]
          split
          · rfl
          · rw [List.filter_cons_of_neg (by simp [chosen])]
      | true =>
          rw [List.filter_cons_of_pos (by simp [chosen]), dropRepeated_cons, ← restEq,
            any_head?_filter (oneNode.sublist keptSublist) (inOrder.sublist keptSublist) chosen]
          split
          · rfl
          · rw [List.filter_cons_of_pos (by simp [chosen])]

theorem oneNode_of_liesIn {tree : Node} {found : List Match}
    (inTree : ∀ entry ∈ found, Cursor.LiesIn tree entry.node) : OneNode found := by
  intro first firstMem second secondMem same
  rw [(inTree first firstMem).eq_of_address_eq (inTree second secondMem) same]

theorem filter_inOrder {found : List Match} (oneNode : OneNode found)
    (selected : Nat → Bool) :
    (inOrder found).filter (fun entry => selected entry.listener) =
      inOrder (found.filter fun entry => selected entry.listener) := by
  have sortedNode : OneNode (stableSort mayPrecede found) := fun one oneMem other otherMem =>
    oneNode one (mem_stableSort.mp oneMem) other (mem_stableSort.mp otherMem)
  rw [inOrder, inOrder, filter_dropRepeated sortedNode (pairwise_stableSort comparesBy_key found),
    filter_stableSort comparesBy_key]

/-- The match with further listeners in front of its own. -/
def shift (offset : Nat) (entry : Match) : Match := ⟨entry.node, entry.listener + offset⟩

theorem inOrder_map_shift (offset : Nat) (found : List Match) :
    inOrder (found.map (shift offset)) = (inOrder found).map (shift offset) := by
  have orderKept (first second : Match) :
      mayPrecede (first.shift offset) (second.shift offset) = mayPrecede first second := by
    unfold shift
    simp [mayPrecede]
  have sameKept (first second : Match) :
      (first.shift offset).same (second.shift offset) = first.same second := by
    unfold shift
    simp [Match.same]
  have dropEq (sorted : List Match) :
      dropRepeated (sorted.map (shift offset)) = (dropRepeated sorted).map (shift offset) := by
    induction sorted with
    | nil => rfl
    | cons first rest ih =>
        rw [List.map_cons, dropRepeated_cons, dropRepeated_cons, ih, List.head?_map]
        have anyEq : ((dropRepeated rest).head?.map (shift offset)).any (first.shift offset).same =
            (dropRepeated rest).head?.any first.same := by
          cases (dropRepeated rest).head? <;> simp [sameKept]
        rw [anyEq]
        split <;> rfl
  rw [inOrder, stableSort_map orderKept, dropEq, inOrder]

theorem same_self (entry : Match) : entry.same entry = true := by
  simp [Match.same]

theorem dropRepeated_replicate_append {entry : Match} {others kept : List Match}
    (keptEq : dropRepeated others = kept) (differ : ∀ other ∈ kept, entry.same other = false)
    (count : Nat) :
    dropRepeated (List.replicate (count + 1) entry ++ others) = entry :: kept := by
  induction count with
  | zero =>
      change dropRepeated (entry :: others) = entry :: kept
      rw [dropRepeated_cons, keptEq]
      cases kept with
      | nil => rfl
      | cons first rest => simp [differ first List.mem_cons_self]
  | succ count ih =>
      rw [List.replicate_succ, List.cons_append, dropRepeated_cons, ih]
      simp [same_self]

theorem dropRepeated_flatMap_replicate {found : List Match} {count : Match → Nat}
    (differ : found.Pairwise fun first second => first.same second = false)
    (repeated : ∀ entry ∈ found, 0 < count entry) :
    dropRepeated (found.flatMap fun entry => List.replicate (count entry) entry) = found := by
  induction found with
  | nil => rfl
  | cons entry rest ih =>
      obtain ⟨entryDiffers, restDiffer⟩ := List.pairwise_cons.mp differ
      obtain ⟨entryRepeated, restRepeated⟩ := List.forall_mem_cons.mp repeated
      obtain ⟨further, countEq⟩ := Nat.exists_eq_succ_of_ne_zero entryRepeated.ne'
      rw [List.flatMap_cons, countEq]
      exact dropRepeated_replicate_append (ih restDiffer restRepeated) entryDiffers further

/-- Different matches that are each found several times in a row are kept once. -/
theorem inOrder_flatMap_replicate {found : List Match} (count : Match → Nat)
    (differ : found.Pairwise fun first second => first.same second = false)
    (repeated : ∀ entry ∈ found, 0 < count entry) :
    inOrder (found.flatMap fun entry => List.replicate (count entry) entry) =
      stableSort mayPrecede found := by
  have symmetric : ∀ {first second : Match}, first.same second = false →
      second.same first = false := by
    intro first second differs
    simp only [Match.same, Bool.and_eq_false_iff, decide_eq_false_iff_not] at differs ⊢
    exact differs.imp Ne.symm Ne.symm
  have permuted := stableSort_perm mayPrecede found
  rw [inOrder, stableSort_flatMap_replicate comparesBy_key]
  apply dropRepeated_flatMap_replicate
  · exact (permuted.pairwise_iff symmetric).mpr differ
  · exact fun entry member => repeated entry (permuted.mem_iff.mp member)

end Match

/-- A listener whose query captures different nodes, each several times in a row, is
handed each of them once. -/
theorem callsFor_singleton_perm {file : File} {listener : CompiledListener}
    {nodes : List Cursor} {count : Cursor → Nat} (distinct : (nodes.map Cursor.address).Nodup)
    (repeated : ∀ node ∈ nodes, 0 < count node)
    (captured : listener.query.capturedNodes file.source file.tree listener.capture =
      nodes.flatMap fun node => List.replicate (count node) node) :
    (callsFor [listener] (captures file [listener])).Perm (nodes.map (⟨listener, ·⟩)) := by
  have capturesEq : captures file [listener] =
      (nodes.map (⟨·, 0⟩ : Cursor → Match)).flatMap fun entry =>
        List.replicate (count entry.node) entry := by
    simp [captures, captured, List.map_flatMap, List.flatMap_map, List.map_replicate]
  have differ : (nodes.map (⟨·, 0⟩ : Cursor → Match)).Pairwise
      fun first second => first.same second = false := by
    rw [List.pairwise_map]
    apply (List.pairwise_map.mp distinct).imp
    intro first second differs
    simp [Match.same, differs]
  have ordered := Match.inOrder_flatMap_replicate (fun entry => count entry.node) differ
    (by simpa using repeated)
  rw [callsFor, capturesEq, ordered]
  apply ((stableSort_perm Match.mayPrecede _).filterMap _).trans
  rw [List.filterMap_map, ← List.filterMap_eq_map]
  exact List.Perm.refl _

section Parts

variable {file : File} {before own after : List CompiledListener}

theorem captures_append (file : File) (first second : List CompiledListener) :
    captures file (first ++ second) =
      captures file first ++ (captures file second).map (Match.shift first.length) := by
  rw [captures, captures, captures, List.mapIdx_append, List.flatten_append, List.map_flatten]
  congr 2
  apply List.ext_getElem?
  intro place
  simp [List.getElem?_mapIdx, Option.map_map, Function.comp_def, Match.shift]

theorem listener_lt_of_mem_captures {listeners : List CompiledListener} {entry : Match}
    (member : entry ∈ captures file listeners) : entry.listener < listeners.length := by
  obtain ⟨listener, found, -⟩ := exists_listener_of_mem_captures member
  exact (List.getElem?_eq_some_iff.mp found).1

/-- What a listener is handed in a file lies in the tree. -/
def StaysInTree (file : File) (listener : CompiledListener) : Prop :=
  ∀ node ∈ listener.query.capturedNodes file.source file.tree listener.capture,
    Cursor.LiesIn file.tree node

theorem liesIn_of_mem_captures {listeners : List CompiledListener}
    (inTree : ∀ listener ∈ listeners, StaysInTree file listener) {entry : Match}
    (member : entry ∈ captures file listeners) : Cursor.LiesIn file.tree entry.node := by
  obtain ⟨listener, found, captured⟩ := exists_listener_of_mem_captures member
  exact inTree listener (List.mem_of_getElem? found) entry.node captured

/-- Whether a place is that of one of `own` listeners behind `before` others. -/
def isOwnPlace (before own place : Nat) : Bool :=
  decide (before ≤ place) && decide (place < before + own)

theorem isOwnPlace_iff {before own place : Nat} :
    isOwnPlace before own place = true ↔ before ≤ place ∧ place < before + own := by
  simp [isOwnPlace]

theorem filter_captures (file : File) (before own after : List CompiledListener) :
    (captures file (before ++ (own ++ after))).filter
        (fun entry => isOwnPlace before.length own.length entry.listener) =
      (captures file own).map (Match.shift before.length) := by
  have noneBefore : (captures file before).filter
      (fun entry => isOwnPlace before.length own.length entry.listener) = [] := by
    apply List.filter_eq_nil_iff.mpr
    intro entry member
    have bound := listener_lt_of_mem_captures member
    rw [isOwnPlace_iff]
    omega
  have allOwn : ((captures file own).map (Match.shift before.length)).filter
      (fun entry => isOwnPlace before.length own.length entry.listener) =
      (captures file own).map (Match.shift before.length) := by
    apply List.filter_eq_self.mpr
    intro entry member
    obtain ⟨found, foundMem, rfl⟩ := List.mem_map.mp member
    have bound := listener_lt_of_mem_captures foundMem
    rw [isOwnPlace_iff]
    simp only [Match.shift]
    omega
  have noneAfter : (((captures file after).map (Match.shift own.length)).map
      (Match.shift before.length)).filter
      (fun entry => isOwnPlace before.length own.length entry.listener) = [] := by
    apply List.filter_eq_nil_iff.mpr
    intro entry member
    obtain ⟨shifted, shiftedMem, rfl⟩ := List.mem_map.mp member
    obtain ⟨found, -, rfl⟩ := List.mem_map.mp shiftedMem
    rw [isOwnPlace_iff]
    simp only [Match.shift]
    omega
  rw [captures_append, captures_append, List.map_append, List.filter_append, List.filter_append,
    noneBefore, allOwn, noneAfter, List.nil_append, List.append_nil]

theorem inOrder_captures_own
    (inTree : ∀ listener ∈ before ++ (own ++ after), StaysInTree file listener) :
    (Match.inOrder (captures file (before ++ (own ++ after)))).filter
        (fun entry => isOwnPlace before.length own.length entry.listener) =
      (Match.inOrder (captures file own)).map (Match.shift before.length) := by
  have oneNode : Match.OneNode (captures file (before ++ (own ++ after))) :=
    Match.oneNode_of_liesIn fun _ => liesIn_of_mem_captures inTree
  rw [Match.filter_inOrder oneNode, filter_captures, Match.inOrder_map_shift]

section Own

variable (isOwn : CompiledListener → Bool) (ownAre : ∀ listener ∈ own, isOwn listener = true)
  (beforeAreNot : ∀ listener ∈ before, isOwn listener = false)
  (afterAreNot : ∀ listener ∈ after, isOwn listener = false)

include ownAre beforeAreNot afterAreNot

theorem filter_getElem?_parts (place : Nat) :
    ((before ++ (own ++ after))[place]?).filter isOwn =
      if isOwnPlace before.length own.length place then own[place - before.length]? else none := by
  split
  · next isPlace =>
      obtain ⟨behind, bound⟩ := isOwnPlace_iff.mp isPlace
      rw [List.getElem?_append_right behind, List.getElem?_append_left (by omega)]
      cases found : own[place - before.length]? with
      | none => rfl
      | some listener => simp [ownAre listener (List.mem_of_getElem? found)]
  · next isNot =>
      rw [isOwnPlace_iff] at isNot
      rw [Option.filter_eq_none_iff]
      intro listener found
      rw [Bool.not_eq_true]
      by_cases inFront : place < before.length
      · rw [List.getElem?_append_left inFront] at found
        exact beforeAreNot listener (List.mem_of_getElem? found)
      · rw [List.getElem?_append_right (by omega),
          List.getElem?_append_right (by omega)] at found
        exact afterAreNot listener (List.mem_of_getElem? found)

/-- The calls of some listeners that follow each other are those that they get by
themselves. -/
theorem filter_callsFor
    (inTree : ∀ listener ∈ before ++ (own ++ after), StaysInTree file listener) :
    (callsFor (before ++ (own ++ after))
        (captures file (before ++ (own ++ after)))).filter (fun call => isOwn call.listener) =
      callsFor own (captures file own) := by
  have callAt (entry : Match) :
      Option.filter (fun call : Call => isOwn call.listener)
        (((before ++ (own ++ after))[entry.listener]?).map (⟨·, entry.node⟩)) =
      if isOwnPlace before.length own.length entry.listener then
        own[entry.listener - before.length]?.map (⟨·, entry.node⟩)
      else none := by
    have filterMapped (listener? : Option CompiledListener) :
        Option.filter (fun call : Call => isOwn call.listener)
          (listener?.map (⟨·, entry.node⟩)) = (listener?.filter isOwn).map (⟨·, entry.node⟩) := by
      cases listener? with
      | none => rfl
      | some listener => cases owned : isOwn listener <;> simp [Option.filter, owned]
    rw [filterMapped, filter_getElem?_parts isOwn ownAre beforeAreNot afterAreNot]
    split <;> rfl
  simp only [callsFor, List.filter_filterMap, callAt]
  rw [← List.filterMap_filter, inOrder_captures_own inTree, List.filterMap_map]
  apply List.filterMap_congr
  intro entry _
  simp [Match.shift]

end Own

end Parts

end Linter

end AssertLint
