import AssertLint.Proofs.Fix.Merge

/-!
# The choice that a pass makes

A pass goes through the fixes from left to right and makes every fix that it still
can.  Two fixes of a list may be equal and yet only one of them be made, so the
choice is not a set of fixes: every fix of the list in order is marked as made or
skipped.  The main result of this file is that the fixes made can all be cut out
of the source and never overlap, that each fix skipped could not have been cut out
or starts inside of one made before it, and that nothing is lost by forgetting the
fixes skipped.
-/

namespace AssertLint

namespace Fix

/-- The edit that a fix makes. -/
def asEdit (fix : Fix) : Edit := ⟨fix.span, fix.text⟩

@[simp]
theorem span_asEdit (fix : Fix) : fix.asEdit.span = fix.span := rfl

@[simp]
theorem map_asFix_map_asEdit (fixes : List Fix) :
    (fixes.map asEdit).map Edit.asFix = fixes := by
  rw [List.map_map]
  exact List.map_id fixes

/-- Replaces the ranges of the given fixes as `spliceFrom` does, but fails at a cut out
of range or inside of a character. -/
def spliceFrom? (source : Source) : Nat → List Fix → Option Source
  | position, [] => source.dropBytes? position
  | position, fix :: rest => do
      let between ← source.slice? ⟨position, fix.span.start⟩
      let later ← spliceFrom? source fix.span.stop rest
      return between ++ fix.text.toList ++ later

/-- The fixes of a list in order, each with whether a pass makes it. -/
def decisionsFrom (source : Source) : Nat → List Fix → List (Fix × Bool)
  | _, [] => []
  | position, fix :: rest =>
      if fix.span.start < position || !source.isValid fix.span then
        (fix, false) :: decisionsFrom source position rest
      else
        (fix, true) :: decisionsFrom source fix.span.stop rest

/-- The fixes that are marked as made. -/
def chosen (decisions : List (Fix × Bool)) : List Fix :=
  (decisions.filter Prod.snd).map Prod.fst

@[simp]
theorem chosen_cons_true (fix : Fix) (decisions : List (Fix × Bool)) :
    chosen ((fix, true) :: decisions) = fix :: chosen decisions := rfl

@[simp]
theorem chosen_cons_false (fix : Fix) (decisions : List (Fix × Bool)) :
    chosen ((fix, false) :: decisions) = chosen decisions := rfl

theorem chosen_sublist (decisions : List (Fix × Bool)) :
    (chosen decisions).Sublist (decisions.map Prod.fst) :=
  List.filter_sublist.map Prod.fst

/-- The fixes made can be cut out of the source and follow each other.  A fix is
skipped only if it cannot be cut out or starts inside of one made before it. -/
structure IsGreedy (source : Source) (decisions : List (Fix × Bool)) : Prop where
  isValid : ∀ fix ∈ chosen decisions, source.isValid fix.span = true
  apart : (chosen decisions).Pairwise fun first second => first.span.stop ≤ second.span.start
  excused : ∀ before fix after, decisions = before ++ (fix, false) :: after →
    source.isValid fix.span = false ∨
      ∃ other ∈ chosen before,
        other.span.start ≤ fix.span.start ∧ fix.span.start < other.span.stop

section Decisions

variable {source : Source}

theorem not_skipped_iff {position : Nat} {fix : Fix} :
    ¬ (fix.span.start < position || !source.isValid fix.span) = true ↔
      position ≤ fix.span.start ∧ source.isValid fix.span = true := by
  simp

theorem map_fst_decisionsFrom (source : Source) (position : Nat) (ordered : List Fix) :
    (decisionsFrom source position ordered).map Prod.fst = ordered := by
  induction ordered generalizing position with
  | nil => rfl
  | cons fix rest ih =>
      rw [decisionsFrom]
      split <;> rw [List.map_cons, ih]

theorem chosen_decisionsFrom (source : Source) (position : Nat) (ordered : List Fix) :
    chosen (decisionsFrom source position ordered) = selectFrom source position ordered := by
  induction ordered generalizing position with
  | nil => rfl
  | cons fix rest ih =>
      rw [decisionsFrom, selectFrom]
      split
      · rw [chosen_cons_false, ih]
      · rw [chosen_cons_true, ih]

theorem isValid_of_mem_selectFrom {position : Nat} {ordered : List Fix} :
    ∀ fix ∈ selectFrom source position ordered, source.isValid fix.span = true := by
  induction ordered generalizing position with
  | nil => simp [selectFrom]
  | cons first rest ih =>
      intro fix member
      rw [selectFrom] at member
      split at member
      next => exact ih fix member
      next made =>
        rcases List.mem_cons.mp member with rfl | later
        · exact (not_skipped_iff.mp made).2
        · exact ih fix later

/-- A pass never goes back behind the place that it has reached. -/
theorem chained_selectFrom (source : Source) (position : Nat) (ordered : List Fix) :
    Edit.Chained position ((selectFrom source position ordered).map asEdit) := by
  induction ordered generalizing position with
  | nil => trivial
  | cons fix rest ih =>
      rw [selectFrom]
      split
      next => exact ih position
      next made => exact ⟨(not_skipped_iff.mp made).1, ih fix.span.stop⟩

/-- A fix that is skipped cannot be cut out, starts before the place reached, or starts
inside of one made on the way. -/
theorem excused_of_decisionsFrom {position : Nat} {ordered : List Fix}
    (inOrder : ordered.Pairwise fun first second => first.span.start ≤ second.span.start)
    {before after : List (Fix × Bool)} {fix : Fix}
    (split : decisionsFrom source position ordered = before ++ (fix, false) :: after) :
    source.isValid fix.span = false ∨ fix.span.start < position ∨
      ∃ other ∈ chosen before,
        other.span.start ≤ fix.span.start ∧ fix.span.start < other.span.stop := by
  induction ordered generalizing position before with
  | nil => simp [decisionsFrom] at split
  | cons first rest ih =>
      obtain ⟨firstLe, restInOrder⟩ := List.pairwise_cons.mp inOrder
      rw [decisionsFrom] at split
      split at split
      next skipped =>
        cases before with
        | nil =>
            obtain ⟨rfl, -⟩ := Prod.mk.inj (List.cons.inj split).1
            simp only [Bool.or_eq_true, decide_eq_true_eq, Bool.not_eq_true'] at skipped
            rcases skipped with early | invalid
            · exact Or.inr (Or.inl early)
            · exact Or.inl invalid
        | cons entry before =>
            obtain ⟨rfl, restSplit⟩ := List.cons.inj split
            rw [chosen_cons_false]
            exact ih restInOrder restSplit
      next =>
        cases before with
        | nil => simp at split
        | cons entry before =>
            obtain ⟨rfl, restSplit⟩ := List.cons.inj split
            rcases ih restInOrder restSplit with invalid | early | ⟨other, otherMem, inside⟩
            · exact Or.inl invalid
            · -- The place reached is the end of the fix made just now.
              have fixMem : fix ∈ rest := by
                rw [← map_fst_decisionsFrom source first.span.stop rest, restSplit]
                simp
              exact Or.inr (Or.inr ⟨first, by simp, firstLe fix fixMem, early⟩)
            · exact Or.inr (Or.inr ⟨other, by simp [otherMem], inside⟩)

theorem selectFrom_eq_self {position : Nat} {fixes : List Fix}
    (chained : Edit.Chained position (fixes.map asEdit))
    (valid : ∀ fix ∈ fixes, source.isValid fix.span = true) :
    selectFrom source position fixes = fixes := by
  induction fixes generalizing position with
  | nil => rfl
  | cons fix rest ih =>
      obtain ⟨behind, restChained⟩ := chained
      rw [span_asEdit] at behind restChained
      rw [selectFrom, if_neg (not_skipped_iff.mpr ⟨behind, valid fix (by simp)⟩),
        ih restChained fun other member => valid other (by simp [member])]

/-- Fixes that can be cut out and follow each other are made without a failing cut. -/
theorem spliceFrom?_eq_some {position : Nat} {fixes : List Fix}
    (boundary : source.isBoundary position = true)
    (chained : Edit.Chained position (fixes.map asEdit))
    (valid : ∀ fix ∈ fixes, source.isValid fix.span = true) :
    spliceFrom? source position fixes = some (spliceFrom source position fixes) := by
  induction fixes generalizing position with
  | nil => exact Source.dropBytes?_of_isBoundary boundary
  | cons fix rest ih =>
      obtain ⟨behind, restChained⟩ := chained
      rw [span_asEdit] at behind restChained
      have fixValid := valid fix (by simp)
      have between := Source.slice?_of_isValid (Source.isValid_between boundary fixValid behind)
      have later := ih (Source.isBoundary_stop_of_isValid fixValid) restChained
        fun other member => valid other (by simp [member])
      rw [spliceFrom?, between, later]
      rfl

end Decisions

section Pass

variable (source : Source) (fixes : List Fix)

theorem isStableOrder_inOrder : IsStableOrder (·.span.start) fixes (inOrder fixes) :=
  isStableOrder_stableSortBy _ fixes

theorem isValid_of_mem_selected {source : Source} {fixes : List Fix} :
    ∀ fix ∈ selected source fixes, source.isValid fix.span = true :=
  isValid_of_mem_selectFrom

theorem chained_selected : Edit.Chained 0 ((selected source fixes).map asEdit) :=
  chained_selectFrom source 0 (inOrder fixes)

theorem isValid_of_mem_map_asEdit_selected {source : Source} {fixes : List Fix} :
    ∀ edit ∈ (selected source fixes).map asEdit, source.isValid edit.span = true := by
  intro edit member
  obtain ⟨fix, fixMem, rfl⟩ := List.mem_map.mp member
  exact isValid_of_mem_selected fix fixMem

/-- The fixes that a pass makes are those that its decisions choose. -/
theorem chosen_decisions :
    chosen (decisionsFrom source 0 (inOrder fixes)) = selected source fixes :=
  chosen_decisionsFrom source 0 (inOrder fixes)

theorem isGreedy_decisions : IsGreedy source (decisionsFrom source 0 (inOrder fixes)) where
  isValid := by
    rw [chosen_decisions]
    exact isValid_of_mem_selected
  apart := by
    rw [chosen_decisions]
    exact List.pairwise_map.mp (Edit.pairwise_of_chained (chained_selected source fixes)
      isValid_of_mem_map_asEdit_selected)
  excused := by
    intro before fix after split
    rcases excused_of_decisionsFrom (isStableOrder_inOrder fixes).inOrder split with
      invalid | early | inside
    · exact Or.inl invalid
    · exact absurd early (Nat.not_lt_zero _)
    · exact Or.inr inside

theorem replaced_applyAll :
    Replaced source ((selected source fixes).map asEdit) (applyAll source fixes) := by
  have spliced := Edit.replacedFrom_spliceFrom (show source = [] ++ source from rfl)
    (chained_selected source fixes) isValid_of_mem_map_asEdit_selected
  rw [map_asFix_map_asEdit] at spliced
  exact spliced

theorem inOrder_selected : inOrder (selected source fixes) = selected source fixes := by
  apply stableSort_eq_self
  have sublist := chosen_sublist (decisionsFrom source 0 (inOrder fixes))
  rw [chosen_decisions, map_fst_decisionsFrom] at sublist
  simpa using (isStableOrder_inOrder fixes).inOrder.sublist sublist

/-- A pass with the fixes that are made makes all of them. -/
theorem applyAll_selected : applyAll source (selected source fixes) = applyAll source fixes := by
  have again : selected source (selected source fixes) = selected source fixes := by
    rw [selected, inOrder_selected]
    exact selectFrom_eq_self (chained_selected source fixes) isValid_of_mem_selected
  rw [applyAll, again, applyAll]

end Pass

/-- A pass makes a greedy choice among the fixes in stable order: no cut of it fails, the
result is the source with exactly the fixes made spliced in, and these alone give the same
result. -/
theorem pass_makes_greedy_choice (source : Source) (fixes : List Fix) :
    ∃ decisions : List (Fix × Bool),
      IsStableOrder (·.span.start) fixes (decisions.map Prod.fst) ∧
      IsGreedy source decisions ∧
      chosen decisions = selected source fixes ∧
      spliceFrom? source 0 (selected source fixes) = some (applyAll source fixes) ∧
      Replaced source ((chosen decisions).map asEdit) (applyAll source fixes) ∧
      applyAll source (chosen decisions) = applyAll source fixes := by
  refine ⟨decisionsFrom source 0 (inOrder fixes), ?_, isGreedy_decisions source fixes,
    chosen_decisions source fixes, ?_, ?_, ?_⟩
  · rw [map_fst_decisionsFrom]
    exact isStableOrder_inOrder fixes
  · exact spliceFrom?_eq_some source.isBoundary_zero (chained_selected source fixes)
      isValid_of_mem_selected
  · rw [chosen_decisions]
    exact replaced_applyAll source fixes
  · rw [chosen_decisions, applyAll_selected]

end Fix

end AssertLint
