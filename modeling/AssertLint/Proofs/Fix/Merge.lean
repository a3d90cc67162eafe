import AssertLint.Fix
import AssertLint.Proofs.Text.Cut
import AssertLint.Proofs.Text.Sorted

/-!
# Merging edits and applying fixes

The edits of a finding come from nodes that follow each other in the source, so
they can always be merged.  The merged fix has the effect of its edits: the text
in their ranges is replaced, and every other character stays.  What it means to
replace ranges is stated by a relation between parts of texts that mentions
neither offsets into characters nor the functions that cut a text.
-/

namespace AssertLint

/-- The effect of edits on the rest of a source from an offset on: up to each
edit the text is kept, the text in the range of the edit is replaced, and behind
the last edit everything is kept. -/
inductive ReplacedFrom : Nat → Source → List Edit → Source → Prop where
  | kept (offset : Nat) (rest : Source) : ReplacedFrom offset rest [] rest
  | replaced {offset : Nat} {between inside rest result : Source} {edit : Edit}
      {edits : List Edit}
      (startEq : offset + between.byteLength = edit.span.start)
      (stopEq : edit.span.start + inside.byteLength = edit.span.stop)
      (later : ReplacedFrom edit.span.stop rest edits result) :
      ReplacedFrom offset (between ++ (inside ++ rest)) (edit :: edits)
        (between ++ (edit.text.toList ++ result))

/-- The second text is the first one with exactly the ranges of the edits
replaced by their texts. -/
def Replaced (source : Source) (edits : List Edit) (result : Source) : Prop :=
  ReplacedFrom 0 source edits result

namespace Edit

/-- The fix that makes a single edit. -/
def asFix (edit : Edit) : Fix := ⟨edit.span, edit.text⟩

/-- Edits follow each other from an offset on, and none starts before the one in
front of it has ended. -/
def Chained : Nat → List Edit → Prop
  | _, [] => True
  | offset, edit :: rest => offset ≤ edit.span.start ∧ Chained edit.span.stop rest

theorem Chained.weaken {low high : Nat} {edits : List Edit} (chained : Chained high edits)
    (lower : low ≤ high) : Chained low edits := by
  cases edits with
  | nil => trivial
  | cons edit rest => exact ⟨Nat.le_trans lower chained.1, chained.2⟩

theorem le_start_of_chained {source : Source} {offset : Nat} {edits : List Edit}
    (chained : Chained offset edits) (valid : ∀ edit ∈ edits, source.isValid edit.span = true) :
    ∀ edit ∈ edits, offset ≤ edit.span.start := by
  induction edits generalizing offset with
  | nil => simp
  | cons first rest ih =>
      intro edit member
      rcases List.mem_cons.mp member with rfl | later
      · exact chained.1
      · have firstOrdered := Source.start_le_stop_of_isValid (valid first (by simp))
        have behind := ih chained.2 (fun other otherMem => valid other (by simp [otherMem]))
          edit later
        have := chained.1
        omega

theorem pairwise_of_chained {source : Source} {offset : Nat} {edits : List Edit}
    (chained : Chained offset edits)
    (valid : ∀ edit ∈ edits, source.isValid edit.span = true) :
    edits.Pairwise fun first second => first.span.stop ≤ second.span.start := by
  induction edits generalizing offset with
  | nil => exact List.Pairwise.nil
  | cons first rest ih =>
      have restValid : ∀ edit ∈ rest, source.isValid edit.span = true :=
        fun edit member => valid edit (by simp [member])
      exact List.pairwise_cons.mpr
        ⟨le_start_of_chained chained.2 restValid, ih chained.2 restValid⟩

/-- Edits that follow each other are in the order in which they are merged. -/
theorem inOrder_eq_self_of_chained {source : Source} {offset : Nat} {edits : List Edit}
    (chained : Chained offset edits)
    (valid : ∀ edit ∈ edits, source.isValid edit.span = true) :
    inOrder edits = edits := by
  apply stableSort_eq_self
  refine (pairwise_of_chained chained valid).imp_of_mem ?_
  intro first second firstMem _ apart
  have firstOrdered := Source.start_le_stop_of_isValid (valid first firstMem)
  simp only [decide_eq_true_eq]
  omega

theorem firstOverlap?_eq_none_of_chained {offset : Nat} {edits : List Edit}
    (chained : Chained offset edits) : firstOverlap? edits = none := by
  induction edits generalizing offset with
  | nil => rfl
  | cons first rest ih =>
      cases rest with
      | nil => rfl
      | cons second others =>
          have apart := chained.2.1
          rw [firstOverlap?, if_neg (by omega)]
          exact ih chained.2

/-- Behind edits that follow each other the offset has only grown. -/
theorem le_lastStop_of_chained {source : Source} {offset : Nat} {edits : List Edit}
    (chained : Chained offset edits)
    (valid : ∀ edit ∈ edits, source.isValid edit.span = true) :
    offset ≤ lastStop offset edits := by
  induction edits generalizing offset with
  | nil => exact Nat.le_refl offset
  | cons first rest ih =>
      have firstOrdered := Source.start_le_stop_of_isValid (valid first (by simp))
      have restGrown := ih chained.2 (fun edit member => valid edit (by simp [member]))
      have := chained.1
      rw [lastStop]
      omega

/-- The last of some edits ends where they end. -/
theorem exists_lastStop_eq (offset : Nat) (first : Edit) (rest : List Edit) :
    ∃ last ∈ first :: rest, lastStop offset (first :: rest) = last.span.stop := by
  induction rest generalizing offset first with
  | nil => exact ⟨first, by simp, rfl⟩
  | cons second others ih =>
      obtain ⟨last, member, stopEq⟩ := ih first.span.stop second
      exact ⟨last, List.mem_cons_of_mem first member, stopEq⟩

/-- Making edits one after the other gives the merged text and what stands
behind it. -/
theorem spliceFrom_map_asFix (source : Source) (offset : Nat) (edits : List Edit) :
    Fix.spliceFrom source offset (edits.map asFix) =
      mergedText source offset edits ++ source.sliceFrom (lastStop offset edits) := by
  induction edits generalizing offset with
  | nil => rfl
  | cons edit rest ih =>
      simp only [List.map_cons, Fix.spliceFrom, mergedText, lastStop, List.append_assoc]
      rw [show (asFix edit).span = edit.span from rfl, ih]
      rfl

/-- Edits that follow each other replace exactly their ranges. -/
theorem replacedFrom_spliceFrom {source front rest : Source} {edits : List Edit}
    (whole : source = front ++ rest)
    (chained : Chained front.byteLength edits)
    (valid : ∀ edit ∈ edits, source.isValid edit.span = true) :
    ReplacedFrom front.byteLength rest edits
      (Fix.spliceFrom source front.byteLength (edits.map asFix)) := by
  induction edits generalizing front rest with
  | nil =>
      rw [List.map_nil, Fix.spliceFrom, whole, Source.sliceFrom_append]
      exact ReplacedFrom.kept _ rest
  | cons edit edits ih =>
      obtain ⟨before, inside, after, cut, startEq, stopEq⟩ :=
        Source.isValid_iff.mp (valid edit (by simp))
      -- The front part ends before the edit, so the text between them is kept.
      obtain ⟨between, beforeEq, restEq⟩ :=
        Source.exists_append_of_byteLength_le (whole.symm.trans cut)
          (by rw [startEq]; exact chained.1)
      subst beforeEq restEq
      rw [Source.byteLength_append] at startEq stopEq
      have wholeAfter : source = (front ++ between ++ inside) ++ after := by
        rw [cut, List.append_assoc, List.append_assoc, List.append_assoc]
      have lengthAfter : edit.span.stop = Source.byteLength (front ++ between ++ inside) := by
        rw [Source.byteLength_append, Source.byteLength_append, stopEq]
      have later := ih wholeAfter (by rw [← lengthAfter]; exact chained.2)
        (fun other member => valid other (by simp [member]))
      rw [← lengthAfter] at later
      have betweenEq :
          source.slice ⟨Source.byteLength front, edit.span.start⟩ = between :=
        Source.slice_eq_of_cut whole rfl startEq
      rw [List.map_cons, Fix.spliceFrom]
      change ReplacedFrom _ _ _
        (source.slice ⟨Source.byteLength front, edit.span.start⟩ ++ edit.text.toList ++
          Fix.spliceFrom source edit.span.stop (edits.map asFix))
      rw [betweenEq, List.append_assoc]
      exact ReplacedFrom.replaced startEq (by omega) later

end Edit

namespace Fix

/-- The merge of edits that are all valid and follow each other. -/
theorem ofEdits_of_chained {source : Source} {first : Edit} {rest : List Edit}
    (chained : Edit.Chained 0 (first :: rest))
    (valid : ∀ edit ∈ first :: rest, source.isValid edit.span = true) :
    ofEdits source (first :: rest) =
      .ok
        { span := ⟨first.span.start, Edit.lastStop first.span.stop rest⟩
          text := String.ofList
            (first.text.toList ++ Edit.mergedText source first.span.stop rest) } := by
  have noneInvalid :
      ((first :: rest).find? fun edit => !source.isValid edit.span) = none := by
    apply List.find?_eq_none.mpr
    intro edit member
    simp [valid edit member]
  simp only [ofEdits]
  rw [noneInvalid]
  simp only [Edit.inOrder_eq_self_of_chained chained valid,
    Edit.firstOverlap?_eq_none_of_chained chained, List.head?_cons, Option.map_some,
    Option.getD_some, Edit.mergedText, Edit.lastStop, Source.slice_self, List.nil_append]

/-- A pass with one valid fix makes it. -/
theorem applyAll_singleton {source : Source} {fix : Fix}
    (valid : source.isValid fix.span = true) :
    applyAll source [fix] =
      source.slice ⟨0, fix.span.start⟩ ++ fix.text.toList ++ source.sliceFrom fix.span.stop := by
  simp [applyAll, selected, inOrder, stableSortBy, stableSort, insertStable, selectFrom,
    spliceFrom, valid]

/-- The range from the first to the last of valid edits that follow each other can
be cut out. -/
theorem isValid_merged {source : Source} {offset : Nat} {first : Edit} {rest : List Edit}
    (chained : Edit.Chained offset (first :: rest))
    (valid : ∀ edit ∈ first :: rest, source.isValid edit.span = true) :
    source.isValid ⟨first.span.start, Edit.lastStop first.span.stop rest⟩ = true := by
  have firstOrdered := Source.start_le_stop_of_isValid (valid first (by simp))
  have grown := Edit.le_lastStop_of_chained chained.2
    (fun edit member => valid edit (by simp [member]))
  obtain ⟨last, member, stopEq⟩ := Edit.exists_lastStop_eq offset first rest
  rw [Edit.lastStop] at stopEq
  rw [stopEq] at grown ⊢
  exact Source.isValid_hull (valid first (by simp)) (valid last member) (by omega)

/-- Edits that are valid and follow each other make a fix that replaces exactly
their ranges. -/
theorem exists_ofEdits_of_chained {source : Source} {first : Edit} {rest : List Edit}
    (chained : Edit.Chained 0 (first :: rest))
    (valid : ∀ edit ∈ first :: rest, source.isValid edit.span = true) :
    ∃ fix, ofEdits source (first :: rest) = .ok fix ∧
      source.isValid fix.span = true ∧
      fix.span.start = first.span.start ∧
      fix.span.stop = Edit.lastStop first.span.stop rest ∧
      fix.text.toList = first.text.toList ++ Edit.mergedText source first.span.stop rest ∧
      Replaced source (first :: rest) (applyAll source [fix]) := by
  have hullValid := isValid_merged chained valid
  refine ⟨_, ofEdits_of_chained chained valid, hullValid, rfl, rfl, by simp, ?_⟩
  rw [applyAll_singleton hullValid]
  have whole : source = [] ++ source := rfl
  have spliced := Edit.replacedFrom_spliceFrom whole chained valid
  rw [Edit.spliceFrom_map_asFix] at spliced
  simpa [Replaced, Edit.mergedText, Edit.lastStop] using spliced

theorem exists_inOrder_eq_cons {fixes : List Fix} (nonempty : fixes ≠ []) :
    ∃ first rest, inOrder fixes = first :: rest ∧ first ∈ fixes := by
  obtain ⟨first, rest, ordered⟩ : ∃ first rest, inOrder fixes = first :: rest := by
    apply List.exists_cons_of_ne_nil
    simpa [inOrder, stableSortBy] using nonempty
  have inSorted : first ∈ inOrder fixes := by simp [ordered]
  exact ⟨first, rest, ordered, mem_stableSort.mp inSorted⟩

/-- A pass changes the source if every fix is valid and replaces a text by one
that starts with another character: the first fix in order is made, and the
result differs from the source where it starts. -/
theorem applyAll_ne_self {source : Source} {fixes : List Fix} (nonempty : fixes ≠ [])
    (valid : ∀ fix ∈ fixes, source.isValid fix.span = true)
    (startsAnew : ∀ fix ∈ fixes, ∃ old new,
      (source.slice fix.span).head? = some old ∧ fix.text.toList.head? = some new ∧
        old ≠ new) :
    applyAll source fixes ≠ source := by
  obtain ⟨first, others, ordered, member⟩ := exists_inOrder_eq_cons nonempty
  obtain ⟨before, inside, after, whole, startEq, stopEq⟩ :=
    Source.isValid_iff.mp (valid first member)
  obtain ⟨old, new, oldHead, newHead, differ⟩ := startsAnew first member
  have insideEq : source.slice first.span = inside :=
    Source.slice_eq_of_cut whole startEq stopEq
  have beforeEq : source.slice ⟨0, first.span.start⟩ = before :=
    Source.slice_eq_of_cut (show source = [] ++ (before ++ (inside ++ after)) from whole) rfl
      (by simpa using startEq)
  rw [insideEq] at oldHead
  rw [applyAll, selected, ordered, selectFrom]
  simp only [Nat.not_lt_zero, decide_false, valid first member, Bool.not_true, Bool.or_false,
    Bool.false_eq_true, if_false, spliceFrom, beforeEq, List.append_assoc]
  intro unchanged
  rw [whole] at unchanged
  have tailsEq := List.append_cancel_left unchanged
  have headsEq := congrArg List.head? tailsEq
  rw [List.head?_append, List.head?_append, oldHead, newHead] at headsEq
  simp only [Option.some_or, Option.some.injEq] at headsEq
  exact differ headsEq.symm

end Fix

end AssertLint
