import AssertLint.Proofs.Fix.AtOnce
import Mathlib.Data.List.Chain

/-!
# Edits that make no fix

Edits are checked in three steps: there have to be some, each has to fit the source,
and no two of them may clash.  The first step that fails decides what is reported.
Misfits are looked for in the order given and clashes among neighbours in stable
order; once all edits fit, looking at neighbours is enough to find every clash.
Behind the checks every cut that the merge makes succeeds.
-/

namespace AssertLint

namespace Edit

/-- An edit ends before another one starts. -/
def EndsBefore (first second : Edit) : Prop :=
  first.span.stop ≤ second.span.start

/-- The first range, in the order given, that does not fit the source. -/
def FirstMisfit (source : Source) (edits : List Edit) (span : Span) : Prop :=
  ∃ before edit after, edits = before ++ edit :: after ∧
    (∀ earlier ∈ before, source.Fits earlier.span) ∧ ¬ source.Fits edit.span ∧
    edit.span = span

/-- The first two neighbours of which the first does not end before the second
starts. -/
def FirstClash (ordered : List Edit) (first second : Span) : Prop :=
  ∃ before one next after, ordered = before ++ one :: next :: after ∧
    (before ++ [one]).IsChain EndsBefore ∧ ¬ EndsBefore one next ∧
    one.span = first ∧ next.span = second

/-- The merged text as `mergedText` gives it, but failing at a cut out of range or
inside of a character. -/
def mergedText? (source : Source) : Nat → List Edit → Option Source
  | _, [] => some []
  | position, edit :: rest => do
      let between ← source.slice? ⟨position, edit.span.start⟩
      let later ← mergedText? source edit.span.stop rest
      return between ++ edit.text.toList ++ later

section Misfits

variable {source : Source} {edits : List Edit} {span : Span}

theorem not_isValid_iff {edit : Edit} :
    (!source.isValid edit.span) = true ↔ ¬ source.Fits edit.span := by
  rw [← Source.isValid_iff_fits, Bool.not_eq_true', Bool.not_eq_true]

theorem firstMisfit_iff :
    FirstMisfit source edits span ↔
      ∃ edit, edits.find? (fun edit => !source.isValid edit.span) = some edit ∧
        edit.span = span := by
  simp only [FirstMisfit, List.find?_eq_some_iff_append, Bool.not_not, not_isValid_iff,
    Source.isValid_iff_fits]
  constructor
  · rintro ⟨before, edit, after, given, fits, misfit, spanEq⟩
    exact ⟨edit, ⟨misfit, before, after, given, fits⟩, spanEq⟩
  · rintro ⟨edit, ⟨misfit, before, after, given, fits⟩, spanEq⟩
    exact ⟨before, edit, after, given, fits, misfit, spanEq⟩

theorem find?_misfit_eq_none_iff :
    edits.find? (fun edit => !source.isValid edit.span) = none ↔
      ∀ edit ∈ edits, source.Fits edit.span := by
  simp only [List.find?_eq_none, not_isValid_iff, not_not]

theorem exists_firstMisfit_iff :
    (∃ span, FirstMisfit source edits span) ↔ ∃ edit ∈ edits, ¬ source.Fits edit.span := by
  constructor
  · rintro ⟨span, before, edit, after, rfl, -, misfit, -⟩
    exact ⟨edit, by simp, misfit⟩
  · rintro ⟨edit, member, misfit⟩
    cases found : edits.find? (fun edit => !source.isValid edit.span) with
    | none => exact absurd (find?_misfit_eq_none_iff.mp found edit member) misfit
    | some first => exact ⟨first.span, firstMisfit_iff.mpr ⟨first, found, rfl⟩⟩

end Misfits

section Clashes

variable {source : Source} {ordered : List Edit}

theorem firstOverlap?_eq_none_iff :
    firstOverlap? ordered = none ↔ ordered.IsChain EndsBefore := by
  fun_induction firstOverlap? ordered with
  | case1 => simp
  | case2 => simp
  | case3 first second rest clash => simp [EndsBefore, clash]
  | case4 first second rest apart ih =>
      rw [ih, List.isChain_cons_cons, EndsBefore]
      exact (and_iff_right (Nat.not_lt.mp apart)).symm

theorem isChain_cons_iff_of_split {first second one : Edit} {rest before after : List Edit}
    (split : second :: rest = before ++ one :: after) :
    (first :: (before ++ [one])).IsChain EndsBefore ↔
      EndsBefore first second ∧ (before ++ [one]).IsChain EndsBefore := by
  cases before with
  | nil =>
      obtain ⟨rfl, -⟩ := List.cons.inj split
      exact List.isChain_cons_cons
  | cons head before =>
      obtain ⟨rfl, -⟩ := List.cons.inj split
      exact List.isChain_cons_cons

theorem firstClash_cons_cons_iff {first second : Edit} {rest : List Edit} {one other : Span}
    (apart : EndsBefore first second) :
    FirstClash (first :: second :: rest) one other ↔ FirstClash (second :: rest) one other := by
  constructor
  · rintro ⟨before, left, right, after, split, chain, clash, named⟩
    cases before with
    | nil =>
        obtain ⟨rfl, rfl, rfl⟩ : first = left ∧ second = right ∧ rest = after := by
          simpa using split
        exact absurd apart clash
    | cons head before =>
        obtain ⟨-, restSplit⟩ := List.cons.inj split
        exact ⟨before, left, right, after, restSplit, chain.tail, clash, named⟩
  · rintro ⟨before, left, right, after, split, chain, clash, named⟩
    exact ⟨first :: before, left, right, after, by rw [split]; rfl,
      (isChain_cons_iff_of_split split).mpr ⟨apart, chain⟩, clash, named⟩

theorem firstOverlap?_eq_some_iff {one other : Span} :
    firstOverlap? ordered = some (one, other) ↔ FirstClash ordered one other := by
  fun_induction firstOverlap? ordered with
  | case1 => simp [FirstClash]
  | case2 edit => simp [FirstClash, List.singleton_eq_append_iff]
  | case3 first second rest clash =>
      rw [Option.some.injEq, Prod.mk.injEq]
      constructor
      · rintro ⟨rfl, rfl⟩
        exact ⟨[], first, second, rest, rfl, List.isChain_singleton first,
          Nat.not_le.mpr clash, rfl, rfl⟩
      · rintro ⟨before, left, right, after, split, chain, -, rfl, rfl⟩
        cases before with
        | nil =>
            obtain ⟨rfl, rfl, -⟩ : first = left ∧ second = right ∧ rest = after := by
              simpa using split
            exact ⟨rfl, rfl⟩
        | cons head before =>
            -- The clash of the first two would stand in front of the one named.
            exfalso
            obtain ⟨rfl, restSplit⟩ := List.cons.inj split
            have apart := ((isChain_cons_iff_of_split restSplit).mp chain).1
            exact Nat.not_le.mpr clash apart
  | case4 first second rest apart ih =>
      rw [ih, firstClash_cons_cons_iff (Nat.not_lt.mp apart)]

theorem firstOverlap?_eq_none_iff_pairwise
    (fits : ∀ edit ∈ ordered, source.Fits edit.span) :
    firstOverlap? ordered = none ↔ ordered.Pairwise EndsBefore := by
  constructor
  · -- Edits that fit are not inverted, which is what makes `EndsBefore` pass on from
    -- neighbour to neighbour.
    intro apart
    cases ordered with
    | nil => exact List.Pairwise.nil
    | cons first rest =>
        exact pairwise_of_chained (chained_of_firstOverlap?_eq_none apart)
          fun edit member => Source.isValid_iff_fits.mpr (fits edit member)
  · intro pairwise
    exact firstOverlap?_eq_none_iff.mpr pairwise.isChain

theorem exists_firstClash_iff (fits : ∀ edit ∈ ordered, source.Fits edit.span) :
    (∃ one other, FirstClash ordered one other) ↔ ¬ ordered.Pairwise EndsBefore := by
  rw [← firstOverlap?_eq_none_iff_pairwise fits]
  simp only [← firstOverlap?_eq_some_iff, Option.eq_none_iff_forall_ne_some, Prod.forall, ne_eq,
    not_forall, not_not]

end Clashes

/-- Behind the checks no cut of the merge fails. -/
theorem mergedText?_eq_some {source : Source} {position : Nat} {edits : List Edit}
    (boundary : source.isBoundary position = true) (chained : Chained position edits)
    (valid : ∀ edit ∈ edits, source.isValid edit.span = true) :
    mergedText? source position edits = some (mergedText source position edits) := by
  induction edits generalizing position with
  | nil => rfl
  | cons edit rest ih =>
      obtain ⟨behind, restChained⟩ := chained
      have editValid := valid edit (by simp)
      have between := Source.slice?_of_isValid (Source.isValid_between boundary editValid behind)
      have later := ih (Source.isBoundary_stop_of_isValid editValid) restChained
        fun other member => valid other (by simp [member])
      rw [mergedText?, between, later]
      rfl

end Edit

namespace Fix

section Checks

variable {source : Source} {edits : List Edit}

theorem ofEdits_of_misfit {edit : Edit}
    (found : edits.find? (fun edit => !source.isValid edit.span) = some edit) :
    ofEdits source edits = .error (.invalidRange edit.span source.byteLength) := by
  cases edits with
  | nil => simp at found
  | cons first rest => simp only [ofEdits, found]

theorem ofEdits_of_clash {first second : Span} (nonempty : edits ≠ [])
    (fits : ∀ edit ∈ edits, source.Fits edit.span)
    (clash : Edit.firstOverlap? (Edit.inOrder edits) = some (first, second)) :
    ofEdits source edits = .error (.overlappingEdits first second) := by
  have noneFound := Edit.find?_misfit_eq_none_iff.mpr fits
  cases edits with
  | nil => exact absurd rfl nonempty
  | cons edit rest => simp only [ofEdits, noneFound, clash]

theorem ofEdits_of_apart (nonempty : edits ≠ [])
    (fits : ∀ edit ∈ edits, source.Fits edit.span)
    (apart : Edit.firstOverlap? (Edit.inOrder edits) = none) :
    ofEdits source edits =
      .ok
        { span :=
            ⟨((Edit.inOrder edits).head?.map (·.span.start)).getD 0,
              Edit.lastStop (((Edit.inOrder edits).head?.map (·.span.start)).getD 0)
                (Edit.inOrder edits)⟩
          text := String.ofList (Edit.mergedText source
            (((Edit.inOrder edits).head?.map (·.span.start)).getD 0) (Edit.inOrder edits)) } := by
  have noneFound := Edit.find?_misfit_eq_none_iff.mpr fits
  cases edits with
  | nil => exact absurd rfl nonempty
  | cons edit rest => simp only [ofEdits, noneFound, apart]

/-- What the checks find in edits, with the result of each case. -/
inductive Checked (source : Source) (edits : List Edit) : Except FixError Fix → Prop where
  | noEdits (empty : edits = []) : Checked source edits (.error .noEdits)
  | invalidRange {edit : Edit}
      (found : edits.find? (fun edit => !source.isValid edit.span) = some edit) :
      Checked source edits (.error (.invalidRange edit.span source.byteLength))
  | overlappingEdits {first second : Span} (fits : ∀ edit ∈ edits, source.Fits edit.span)
      (clash : Edit.firstOverlap? (Edit.inOrder edits) = some (first, second)) :
      Checked source edits (.error (.overlappingEdits first second))
  | merged {fix : Fix} (nonempty : edits ≠ []) (fits : ∀ edit ∈ edits, source.Fits edit.span)
      (apart : Edit.firstOverlap? (Edit.inOrder edits) = none) :
      Checked source edits (.ok fix)

theorem checked_ofEdits (source : Source) (edits : List Edit) :
    Checked source edits (ofEdits source edits) := by
  by_cases empty : edits = []
  · subst empty
    exact .noEdits rfl
  · cases found : edits.find? (fun edit => !source.isValid edit.span) with
    | some edit =>
        rw [ofEdits_of_misfit found]
        exact .invalidRange found
    | none =>
        have fits := Edit.find?_misfit_eq_none_iff.mp found
        cases overlap : Edit.firstOverlap? (Edit.inOrder edits) with
        | some clash =>
            rw [ofEdits_of_clash empty fits overlap]
            exact .overlappingEdits fits overlap
        | none =>
            rw [ofEdits_of_apart empty fits overlap]
            exact .merged empty fits overlap

theorem ofEdits_eq_noEdits_iff :
    ofEdits source edits = .error .noEdits ↔ edits = [] := by
  constructor
  · intro reported
    have checked := checked_ofEdits source edits
    rw [reported] at checked
    cases checked with
    | noEdits empty => exact empty
  · rintro rfl
    rfl

theorem ofEdits_eq_invalidRange_iff {span : Span} {length : Nat} :
    ofEdits source edits = .error (.invalidRange span length) ↔
      Edit.FirstMisfit source edits span ∧ source.byteLength = length := by
  constructor
  · intro reported
    have checked := checked_ofEdits source edits
    rw [reported] at checked
    cases checked with
    | invalidRange found => exact ⟨Edit.firstMisfit_iff.mpr ⟨_, found, rfl⟩, rfl⟩
  · rintro ⟨misfit, rfl⟩
    obtain ⟨edit, found, rfl⟩ := Edit.firstMisfit_iff.mp misfit
    exact ofEdits_of_misfit found

theorem ofEdits_eq_overlappingEdits_iff {first second : Span} :
    ofEdits source edits = .error (.overlappingEdits first second) ↔
      (∀ edit ∈ edits, source.Fits edit.span) ∧
        Edit.FirstClash (Edit.inOrder edits) first second := by
  constructor
  · intro reported
    have checked := checked_ofEdits source edits
    rw [reported] at checked
    cases checked with
    | overlappingEdits fits clash => exact ⟨fits, Edit.firstOverlap?_eq_some_iff.mp clash⟩
  · rintro ⟨fits, clash⟩
    have nonempty : edits ≠ [] := by
      rintro rfl
      obtain ⟨before, one, next, after, split, -⟩ := clash
      simp [Edit.inOrder, stableSortBy, stableSort] at split
    exact ofEdits_of_clash nonempty fits (Edit.firstOverlap?_eq_some_iff.mpr clash)

theorem exists_ofEdits_eq_ok_iff :
    (∃ fix, ofEdits source edits = .ok fix) ↔
      edits ≠ [] ∧ (∀ edit ∈ edits, source.Fits edit.span) ∧
        (Edit.inOrder edits).Pairwise Edit.EndsBefore := by
  have orderedFits (fits : ∀ edit ∈ edits, source.Fits edit.span) :
      ∀ edit ∈ Edit.inOrder edits, source.Fits edit.span :=
    fun edit member => fits edit (Edit.mem_inOrder.mp member)
  constructor
  · rintro ⟨fix, merged⟩
    have checked := checked_ofEdits source edits
    rw [merged] at checked
    cases checked with
    | merged nonempty fits apart =>
        exact ⟨nonempty, fits,
          (Edit.firstOverlap?_eq_none_iff_pairwise (orderedFits fits)).mp apart⟩
  · rintro ⟨nonempty, fits, pairwise⟩
    have apart := (Edit.firstOverlap?_eq_none_iff_pairwise (orderedFits fits)).mpr pairwise
    exact ⟨_, ofEdits_of_apart nonempty fits apart⟩

theorem exists_overlappingEdits_iff :
    (∃ first second, ofEdits source edits = .error (.overlappingEdits first second)) ↔
      (∀ edit ∈ edits, source.Fits edit.span) ∧
        ¬ (Edit.inOrder edits).Pairwise Edit.EndsBefore := by
  simp only [ofEdits_eq_overlappingEdits_iff, exists_and_left]
  refine and_congr_right fun fits => ?_
  exact Edit.exists_firstClash_iff fun edit member => fits edit (Edit.mem_inOrder.mp member)

theorem mergedText?_of_ofEdits_eq_ok {fix : Fix} (merged : ofEdits source edits = .ok fix) :
    Edit.mergedText? source fix.span.start (Edit.inOrder edits) = some fix.text.toList := by
  obtain ⟨nonempty, valid, apart⟩ := of_ofEdits_eq_ok merged
  have chained := chained_of_ofEdits_eq_ok merged
  have orderedMerged := ofEdits_inOrder merged
  have orderedValid : ∀ edit ∈ Edit.inOrder edits, source.isValid edit.span = true :=
    fun edit member => valid edit (Edit.mem_inOrder.mp member)
  cases ordered : Edit.inOrder edits with
  | nil => exact absurd (by simpa [Edit.inOrder, stableSortBy] using ordered) nonempty
  | cons first rest =>
      rw [ordered] at chained orderedMerged orderedValid
      obtain ⟨fix', merged', isValid, startEq, -, textEq, -⟩ :=
        exists_ofEdits_of_chained chained orderedValid
      obtain rfl : fix = fix' := Except.ok.inj (orderedMerged.symm.trans merged')
      have boundary : source.isBoundary first.span.start = true :=
        Source.isBoundary_iff.mpr
          (Source.isValid_iff_fits.mp (orderedValid first (by simp))).start_boundary
      have fromFirst : Edit.Chained first.span.start (first :: rest) :=
        ⟨Nat.le_refl _, chained.2⟩
      rw [startEq, Edit.mergedText?_eq_some boundary fromFirst orderedValid, textEq,
        Edit.mergedText, Source.slice_self, List.nil_append]

end Checks

/-- What merging edits into a fix comes to, in the order of the checks. -/
structure IsMergeOf (source : Source) (edits : List Edit) (outcome : Except FixError Fix) :
    Prop where
  noEdits : outcome = .error .noEdits ↔ edits = []
  invalidRange : (∃ span length, outcome = .error (.invalidRange span length)) ↔
    ∃ edit ∈ edits, ¬ source.Fits edit.span
  firstMisfit : ∀ span length, outcome = .error (.invalidRange span length) ↔
    Edit.FirstMisfit source edits span ∧ (String.ofList source).utf8ByteSize = length
  stableOrder : IsStableOrder (·.span.start) edits (Edit.inOrder edits)
  overlappingEdits : (∃ first second, outcome = .error (.overlappingEdits first second)) ↔
    (∀ edit ∈ edits, source.Fits edit.span) ∧
      ∃ first second, [first, second].Sublist (Edit.inOrder edits) ∧
        second.span.start < first.span.stop
  firstClash : ∀ first second, outcome = .error (.overlappingEdits first second) ↔
    (∀ edit ∈ edits, source.Fits edit.span) ∧
      Edit.FirstClash (Edit.inOrder edits) first second
  merged : (∃ fix, outcome = .ok fix) ↔
    edits ≠ [] ∧ (∀ edit ∈ edits, source.Fits edit.span) ∧
      (Edit.inOrder edits).Pairwise Edit.EndsBefore
  noFailingCut : ∀ fix, outcome = .ok fix →
    Edit.mergedText? source fix.span.start (Edit.inOrder edits) = some fix.text.toList

/-- Merging reports that there are no edits, else the first misfit in the order given,
else the first clash of neighbours in stable order, which is there as soon as any two
edits clash.  Otherwise it gives a fix, and no cut on the way fails. -/
theorem merging_reports_first_fault (source : Source) (edits : List Edit) :
    IsMergeOf source edits (ofEdits source edits) where
  noEdits := ofEdits_eq_noEdits_iff
  invalidRange := by
    rw [← Edit.exists_firstMisfit_iff]
    simp [ofEdits_eq_invalidRange_iff]
  firstMisfit := by
    intro span length
    rw [ofEdits_eq_invalidRange_iff, Source.utf8ByteSize_ofList]
  stableOrder := Edit.isStableOrder_inOrder edits
  overlappingEdits := by
    rw [exists_overlappingEdits_iff, List.pairwise_iff_forall_sublist]
    simp [Edit.EndsBefore]
  firstClash := fun _ _ => ofEdits_eq_overlappingEdits_iff
  merged := exists_ofEdits_eq_ok_iff
  noFailingCut := fun _ => mergedText?_of_ofEdits_eq_ok

end Fix

end AssertLint
