import AssertLint.Proofs.Fix.Faults
import AssertLint.Proofs.Text.Ranges

/-!
# Edits given in another order

Edits are put in order by their starts alone, so edits that start together are
compared as they were given.  This shows in one case: an insertion given behind an
edit that replaces text from the same place on is taken for an overlap, although the
two ranges share nothing, and given the other way round both edits are made.  Apart
from that case edits are refused exactly when two of them overlap, and the order in
which they are given does not matter.
-/

namespace AssertLint

namespace Edit

/-- An edit that inserts is given behind one that replaces text from the same place
on. -/
def InsertedLate (first second : Edit) : Prop :=
  first.span.start = second.span.start ∧ first.span.start < first.span.stop ∧
    second.span.stop = second.span.start

/-- No edit that inserts stands behind one that replaces text from the same place
on. -/
def InsertionsFirst (edits : List Edit) : Prop :=
  edits.Pairwise fun first second => ¬ InsertedLate first second

section Given

variable {source : Source} {edits : List Edit}

/-- Of two edits as given, the one put first ends before the other one starts unless
they overlap or an insertion comes late. -/
theorem endsBefore_as_ordered_iff {first second : Edit}
    (firstOrdered : first.span.start ≤ first.span.stop)
    (secondOrdered : second.span.start ≤ second.span.stop) :
    (if decide (first.span.start ≤ second.span.start) then EndsBefore first second
      else EndsBefore second first) ↔
      ¬ first.span.Overlaps second.span ∧ ¬ InsertedLate first second := by
  unfold EndsBefore Span.Overlaps InsertedLate
  split
  · next inOrder =>
      rw [decide_eq_true_eq] at inOrder
      omega
  · next outOfOrder =>
      rw [decide_eq_true_eq] at outOfOrder
      omega

theorem pairwise_endsBefore_inOrder_iff (fits : ∀ edit ∈ edits, source.Fits edit.span) :
    (inOrder edits).Pairwise EndsBefore ↔
      edits.Pairwise fun first second =>
        ¬ first.span.Overlaps second.span ∧ ¬ InsertedLate first second := by
  rw [inOrder, stableSortBy, pairwise_stableSort_iff (comparesBy_decide_le _)]
  apply List.Pairwise.iff_of_mem
  intro first second firstMem secondMem
  exact endsBefore_as_ordered_iff (fits first firstMem).ordered (fits second secondMem).ordered

theorem pairwise_endsBefore_inOrder_iff_of_insertionsFirst
    (fits : ∀ edit ∈ edits, source.Fits edit.span)
    (insertionsFirst : InsertionsFirst edits) :
    (inOrder edits).Pairwise EndsBefore ↔
      edits.Pairwise fun first second => ¬ first.span.Overlaps second.span := by
  rw [pairwise_endsBefore_inOrder_iff fits, List.pairwise_and_iff]
  exact and_iff_left insertionsFirst

end Given

end Edit

namespace Fix

section Given

variable {source : Source} {edits permuted : List Edit}

theorem exists_overlappingEdits_iff_not_pairwise
    (fits : ∀ edit ∈ edits, source.Fits edit.span) :
    (∃ first second, ofEdits source edits = .error (.overlappingEdits first second)) ↔
      ¬ (Edit.inOrder edits).Pairwise Edit.EndsBefore := by
  rw [exists_overlappingEdits_iff]
  exact and_iff_right fits

theorem exists_ofEdits_eq_ok_iff_pairwise (fits : ∀ edit ∈ edits, source.Fits edit.span)
    (insertionsFirst : Edit.InsertionsFirst edits) :
    (∃ fix, ofEdits source edits = .ok fix) ↔
      edits ≠ [] ∧ edits.Pairwise fun first second => ¬ first.span.Overlaps second.span := by
  rw [exists_ofEdits_eq_ok_iff,
    Edit.pairwise_endsBefore_inOrder_iff_of_insertionsFirst fits insertionsFirst]
  exact and_congr_right fun _ => and_iff_right fits

/-- Of edits that fit and start at different places every order gives the same. -/
theorem ofEdits_eq_of_perm (fits : ∀ edit ∈ edits, source.Fits edit.span)
    (isPermuted : permuted.Perm edits) (distinct : (edits.map (·.span.start)).Nodup) :
    ofEdits source permuted = ofEdits source edits := by
  have sameOrder : Edit.inOrder permuted = Edit.inOrder edits :=
    stableSort_eq_of_perm (comparesBy_decide_le _) isPermuted distinct
  by_cases empty : edits = []
  · subst empty
    rw [isPermuted.eq_nil]
  · have permutedNonempty : permuted ≠ [] := fun none => empty (by simpa [none] using isPermuted)
    have permutedFits : ∀ edit ∈ permuted, source.Fits edit.span :=
      fun edit member => fits edit (isPermuted.mem_iff.mp member)
    cases overlap : Edit.firstOverlap? (Edit.inOrder edits) with
    | some clash =>
        rw [ofEdits_of_clash empty fits overlap,
          ofEdits_of_clash permutedNonempty permutedFits (sameOrder ▸ overlap)]
    | none =>
        rw [ofEdits_of_apart empty fits overlap,
          ofEdits_of_apart permutedNonempty permutedFits (sameOrder ▸ overlap), sameOrder]

end Given

/-- Edits that fit are refused when two of them overlap or an insertion is given behind
an edit that replaces text from the same place on.  Where no insertion comes late, only
overlaps are refused, and every order without late insertions is accepted alike; and
edits of which no two start together give the same fix in every order. -/
theorem refused_iff_overlap_or_late_insertion {source : Source} {edits : List Edit}
    (fits : ∀ edit ∈ edits, source.Fits edit.span) :
    ((∃ first second, ofEdits source edits = .error (.overlappingEdits first second)) ↔
      ∃ first second, [first, second].Sublist edits ∧
        (first.span.Overlaps second.span ∨ Edit.InsertedLate first second)) ∧
    (Edit.InsertionsFirst edits →
      ((∃ first second, ofEdits source edits = .error (.overlappingEdits first second)) ↔
        ∃ first second, [first, second].Sublist edits ∧ first.span.Overlaps second.span)) ∧
    (∀ permuted : List Edit, permuted.Perm edits → Edit.InsertionsFirst edits →
      Edit.InsertionsFirst permuted →
      ((∃ fix, ofEdits source permuted = .ok fix) ↔ ∃ fix, ofEdits source edits = .ok fix)) ∧
    ∀ permuted : List Edit, permuted.Perm edits → (edits.map (·.span.start)).Nodup →
      ofEdits source permuted = ofEdits source edits := by
  refine ⟨?_, ?_, ?_, fun permuted => ofEdits_eq_of_perm fits⟩
  · rw [exists_overlappingEdits_iff_not_pairwise fits,
      Edit.pairwise_endsBefore_inOrder_iff fits, List.pairwise_iff_forall_sublist]
    simp only [not_forall, exists_prop, not_and_or, not_not]
  · intro insertionsFirst
    rw [exists_overlappingEdits_iff_not_pairwise fits,
      Edit.pairwise_endsBefore_inOrder_iff_of_insertionsFirst fits insertionsFirst,
      List.pairwise_iff_forall_sublist]
    simp only [not_forall, exists_prop, not_not]
  · intro permuted isPermuted insertionsFirst permutedFirst
    have permutedFits : ∀ edit ∈ permuted, source.Fits edit.span :=
      fun edit member => fits edit (isPermuted.mem_iff.mp member)
    -- Overlap is symmetric while lateness is not: hence the condition on both orders.
    have symmetric : ∀ {first second : Edit}, ¬ first.span.Overlaps second.span →
        ¬ second.span.Overlaps first.span := fun apart overlap => apart overlap.symm
    rw [exists_ofEdits_eq_ok_iff_pairwise permutedFits permutedFirst,
      exists_ofEdits_eq_ok_iff_pairwise fits insertionsFirst, isPermuted.pairwise_iff symmetric]
    exact and_congr_left fun _ => not_congr
      ⟨fun none => by simpa [none] using isPermuted.symm,
        fun none => by simpa [none] using isPermuted⟩

/-- An insertion that comes late, and two replacements given from right to left. -/
theorem late_insertion_and_reversed_replacements :
    (∃ first second, ofEdits "aéc".toList [⟨⟨1, 3⟩, "y"⟩, ⟨⟨1, 1⟩, "x"⟩] =
      .error (.overlappingEdits first second)) ∧
    ofEdits "aéc".toList [⟨⟨3, 4⟩, "z"⟩, ⟨⟨0, 1⟩, "x"⟩] =
      ofEdits "aéc".toList [⟨⟨0, 1⟩, "x"⟩, ⟨⟨3, 4⟩, "z"⟩] := by
  have lateFits : ∀ edit ∈ ([⟨⟨1, 3⟩, "y"⟩, ⟨⟨1, 1⟩, "x"⟩] : List Edit),
      Source.Fits "aéc".toList edit.span := by
    simp only [← Source.isValid_iff_fits]
    decide +kernel
  have fits : ∀ edit ∈ ([⟨⟨0, 1⟩, "x"⟩, ⟨⟨3, 4⟩, "z"⟩] : List Edit),
      Source.Fits "aéc".toList edit.span := by
    simp only [← Source.isValid_iff_fits]
    decide +kernel
  constructor
  · apply (refused_iff_overlap_or_late_insertion lateFits).1.mpr
    exact ⟨⟨⟨1, 3⟩, "y"⟩, ⟨⟨1, 1⟩, "x"⟩, List.Sublist.refl _, Or.inr ⟨rfl, by decide, rfl⟩⟩
  · exact (refused_iff_overlap_or_late_insertion fits).2.2.2 _ (List.Perm.swap _ _ [])
      (by decide)

/-- Two edits that do not overlap are refused as overlapping in one order and made in
the other. -/
theorem insertion_refused_in_one_order :
    Source.Fits "abc".toList ⟨1, 2⟩ ∧ Source.Fits "abc".toList ⟨1, 1⟩ ∧
      ¬ Span.Overlaps ⟨1, 2⟩ ⟨1, 1⟩ ∧
      ofEdits "abc".toList [⟨⟨1, 2⟩, "y"⟩, ⟨⟨1, 1⟩, "x"⟩] =
        .error (.overlappingEdits ⟨1, 2⟩ ⟨1, 1⟩) ∧
      ofEdits "abc".toList [⟨⟨1, 1⟩, "x"⟩, ⟨⟨1, 2⟩, "y"⟩] = .ok ⟨⟨1, 2⟩, "xy"⟩ := by
  simp only [← Source.isValid_iff_fits]
  decide +kernel

end Fix

end AssertLint
