import AssertLint.Proofs.Fix.Pass
import AssertLint.Proofs.Text.Ranges
import Mathlib.Data.List.Pairwise

/-!
# A pass over nested fixes

When no two fixes overlap without one lying inside of the other, the choice of a
pass does not depend on chance: it makes the outermost fixes and no others.
-/

namespace AssertLint

namespace Fix

section Nested

variable {source : Source} {fixes : List Fix}

theorem mem_chosen_or_excused {decisions : List (Fix × Bool)} (greedy : IsGreedy source decisions)
    {fix : Fix} (member : fix ∈ decisions.map Prod.fst) :
    fix ∈ chosen decisions ∨ source.isValid fix.span = false ∨
      ∃ other ∈ chosen decisions,
        other.span.start ≤ fix.span.start ∧ fix.span.start < other.span.stop := by
  obtain ⟨⟨fix, made⟩, entryMem, rfl⟩ := List.mem_map.mp member
  cases made with
  | true => exact Or.inl (List.mem_map.mpr ⟨(fix, true), by simpa using entryMem, rfl⟩)
  | false =>
      obtain ⟨before, after, split⟩ := List.append_of_mem entryMem
      rcases greedy.excused before fix after split with invalid | ⟨other, otherMem, inside⟩
      · exact Or.inr (Or.inl invalid)
      · refine Or.inr (Or.inr ⟨other, ?_, inside⟩)
        rw [split, chosen, List.filter_append, List.map_append]
        exact List.mem_append_left _ otherMem

theorem mem_inOrder {fix : Fix} : fix ∈ inOrder fixes ↔ fix ∈ fixes :=
  mem_stableSort

theorem mem_of_mem_selected {fix : Fix} (member : fix ∈ selected source fixes) : fix ∈ fixes := by
  have sublist := chosen_sublist (decisionsFrom source 0 (inOrder fixes))
  rw [chosen_decisions, map_fst_decisionsFrom] at sublist
  exact mem_inOrder.mp (sublist.subset member)

/-- Every fix is made or lies in one that is made. -/
theorem exists_selected_around (valid : ∀ fix ∈ fixes, source.isValid fix.span = true)
    (nested : fixes.Pairwise fun first second => first.span.Nested second.span) {fix : Fix}
    (member : fix ∈ fixes) :
    fix ∈ selected source fixes ∨
      ∃ other ∈ selected source fixes, other ≠ fix ∧ fix.span.Within other.span := by
  have inDecisions : fix ∈ (decisionsFrom source 0 (inOrder fixes)).map Prod.fst := by
    rw [map_fst_decisionsFrom]
    exact mem_inOrder.mpr member
  have found := mem_chosen_or_excused (isGreedy_decisions source fixes) inDecisions
  rw [chosen_decisions] at found
  rcases found with made | invalid | ⟨other, otherMem, startLe, startLt⟩
  · exact Or.inl made
  · simp [valid fix member] at invalid
  · by_cases same : other = fix
    · exact Or.inl (same ▸ otherMem)
    · right
      have related := nested.forall member (mem_of_mem_selected otherMem) (Ne.symm same)
      exact ⟨other, otherMem, same, related.within_of_start startLe startLt
        (Source.start_le_stop_of_isValid (valid fix member))⟩

/-- No fix that is made lies in another one that is made. -/
theorem not_within_of_mem_selected {fix other : Fix} (fixMem : fix ∈ selected source fixes)
    (otherMem : other ∈ selected source fixes) (differ : other ≠ fix)
    (nonempty : fix.span.start < fix.span.stop) : ¬ fix.span.Within other.span := by
  have apart := (isGreedy_decisions source fixes).apart
  rw [chosen_decisions] at apart
  have pairwise : (selected source fixes).Pairwise fun first second =>
      first.span.Apart second.span := apart.imp Or.inl
  have pair := pairwise.forall fixMem otherMem (Ne.symm differ)
  unfold Span.Within
  unfold Span.Apart at pair
  omega

/-- Of nested fixes a pass makes exactly those that lie in no other one. -/
theorem mem_selected_iff_outermost (valid : ∀ fix ∈ fixes, source.isValid fix.span = true)
    (nonempty : ∀ fix ∈ fixes, fix.span.start < fix.span.stop)
    (nested : fixes.Pairwise fun first second => first.span.Nested second.span) {fix : Fix}
    (member : fix ∈ fixes) :
    fix ∈ selected source fixes ↔
      ∀ other ∈ fixes, other ≠ fix → ¬ fix.span.Within other.span := by
  constructor
  · intro made other otherMem differ inside
    -- Around a fix in another one there is one that is made.
    rcases exists_selected_around valid nested otherMem with otherMade | ⟨top, topMade, -, around⟩
    · exact not_within_of_mem_selected made otherMade differ (nonempty fix member) inside
    · have topAround := inside.trans around
      have topNe : top ≠ fix := by
        rintro rfl
        have startNe := (nested.forall otherMem member differ).start_ne
        exact startNe (Nat.le_antisymm inside.1 around.1)
      exact not_within_of_mem_selected made topMade topNe (nonempty fix member) topAround
  · intro outermost
    rcases exists_selected_around valid nested member with made | ⟨other, otherMade, differ, inside⟩
    · exact made
    · exact absurd inside (outermost other (mem_of_mem_selected otherMade) differ)

end Nested

end Fix

end AssertLint
