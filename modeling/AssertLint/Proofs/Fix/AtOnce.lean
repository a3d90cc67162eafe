import AssertLint.Proofs.Fix.Pass

/-!
# A merged fix and its edits

The edits of a finding can be made in three ways: merged into one fix, one at a
time from the last to the first, or as fixes of their own in a single pass.  Each
way replaces the ranges of the edits and nothing else, and there is only one text
that does so.  Making edits one at a time is what shows this, since it gives the
same text for every way to take the source apart.
-/

namespace AssertLint

namespace Edit

/-- The text with the range of an edit replaced, if the range can be cut out of it. -/
def splice? (edit : Edit) (text : Source) : Option Source :=
  if text.isValid edit.span then
    some (text.slice ⟨0, edit.span.start⟩ ++ edit.text.toList ++ text.sliceFrom edit.span.stop)
  else
    none

/-- Makes edits one at a time, the last one first. -/
def spliceAll? (edits : List Edit) (text : Source) : Option Source :=
  edits.foldrM splice? text

theorem splice?_append {before inside after : Source} {edit : Edit}
    (startEq : before.byteLength = edit.span.start)
    (stopEq : before.byteLength + inside.byteLength = edit.span.stop) :
    edit.splice? (before ++ (inside ++ after)) =
      some (before ++ (edit.text.toList ++ after)) := by
  have valid : Source.isValid (before ++ (inside ++ after)) edit.span = true :=
    Source.isValid_iff.mpr ⟨before, inside, after, rfl, startEq, stopEq⟩
  have front : Source.slice (before ++ (inside ++ after)) ⟨0, edit.span.start⟩ = before :=
    Source.slice_eq_of_cut (show _ = [] ++ (before ++ (inside ++ after)) from rfl) rfl
      (by simpa using startEq)
  have back : Source.sliceFrom (before ++ (inside ++ after)) edit.span.stop = after := by
    rw [← stopEq, ← Source.byteLength_append, ← List.append_assoc, Source.sliceFrom_append]
  rw [splice?, if_pos valid, front, back, List.append_assoc]

theorem spliceAll?_cons (edit : Edit) (edits : List Edit) (text : Source) :
    spliceAll? (edit :: edits) text = (spliceAll? edits text).bind edit.splice? :=
  List.foldrM_cons

end Edit

/-- Edits that replace ranges can be made one at a time, whatever stands in front. -/
theorem ReplacedFrom.spliceAll?_eq {offset : Nat} {front rest result : Source}
    {edits : List Edit} (replaced : ReplacedFrom offset rest edits result)
    (offsetEq : front.byteLength = offset) :
    Edit.spliceAll? edits (front ++ rest) = some (front ++ result) := by
  induction replaced generalizing front with
  | kept => rfl
  | @replaced offset between inside rest result edit edits startEq stopEq later ih =>
      -- The later edits leave everything up to the end of this one as it is.
      have behind : Source.byteLength (front ++ between ++ inside) = edit.span.stop := by
        simp only [Source.byteLength_append]
        omega
      have laterMade := ih behind
      have frontEq : Source.byteLength (front ++ between) = edit.span.start := by
        rw [Source.byteLength_append]
        omega
      rw [List.append_assoc, List.append_assoc, List.append_assoc] at laterMade
      rw [Edit.spliceAll?_cons, laterMade, Option.bind_some,
        Edit.splice?_append frontEq (by omega), List.append_assoc]

theorem Replaced.spliceAll?_eq {source result : Source} {edits : List Edit}
    (replaced : Replaced source edits result) :
    Edit.spliceAll? edits source = some result :=
  ReplacedFrom.spliceAll?_eq replaced (show Source.byteLength [] = 0 from rfl)

/-- There is only one text with the ranges of given edits replaced. -/
theorem Replaced.unique {source first second : Source} {edits : List Edit}
    (firstReplaced : Replaced source edits first)
    (secondReplaced : Replaced source edits second) : first = second :=
  Option.some.inj (firstReplaced.spliceAll?_eq.symm.trans secondReplaced.spliceAll?_eq)

namespace Edit

section Chained

theorem chained_of_firstOverlap?_eq_none {first : Edit} {rest : List Edit}
    (apart : firstOverlap? (first :: rest) = none) :
    Chained first.span.start (first :: rest) := by
  induction rest generalizing first with
  | nil => exact ⟨Nat.le_refl _, trivial⟩
  | cons second others ih =>
      rw [firstOverlap?] at apart
      split at apart
      next => simp at apart
      next behind => exact ⟨Nat.le_refl _, (ih apart).weaken (Nat.not_lt.mp behind)⟩

theorem stop_le_lastStop_of_chained {source : Source} {offset : Nat} {edits : List Edit}
    (chained : Chained offset edits)
    (valid : ∀ edit ∈ edits, source.isValid edit.span = true) :
    ∀ edit ∈ edits, edit.span.stop ≤ lastStop offset edits := by
  induction edits generalizing offset with
  | nil => simp
  | cons first rest ih =>
      have restValid : ∀ edit ∈ rest, source.isValid edit.span = true :=
        fun edit member => valid edit (by simp [member])
      intro edit member
      rw [lastStop]
      rcases List.mem_cons.mp member with rfl | later
      · exact le_lastStop_of_chained chained.2 restValid
      · exact ih chained.2 restValid edit later

end Chained

theorem isStableOrder_inOrder (edits : List Edit) :
    IsStableOrder (·.span.start) edits (inOrder edits) :=
  isStableOrder_stableSortBy _ edits

theorem mem_inOrder {edit : Edit} {edits : List Edit} : edit ∈ inOrder edits ↔ edit ∈ edits :=
  mem_stableSort

theorem inOrder_inOrder (edits : List Edit) : inOrder (inOrder edits) = inOrder edits := by
  apply stableSort_eq_self
  simpa using (isStableOrder_inOrder edits).inOrder

theorem inOrder_map_asFix (edits : List Edit) :
    Fix.inOrder (edits.map asFix) = (inOrder edits).map asFix :=
  stableSort_map (fun _ _ => rfl) edits

end Edit

namespace Fix

section Merged

variable {source : Source} {edits : List Edit} {fix : Fix}

/-- Edits that can be merged are there, can be cut out and do not overlap. -/
theorem of_ofEdits_eq_ok (merged : ofEdits source edits = .ok fix) :
    edits ≠ [] ∧ (∀ edit ∈ edits, source.isValid edit.span = true) ∧
      Edit.firstOverlap? (Edit.inOrder edits) = none := by
  cases edits with
  | nil => simp [ofEdits] at merged
  | cons first rest =>
      simp only [ofEdits] at merged
      split at merged
      next => simp at merged
      next noneInvalid =>
        split at merged
        next => simp at merged
        next apart =>
          refine ⟨by simp, ?_, apart⟩
          intro edit member
          simpa using List.find?_eq_none.mp noneInvalid edit member

/-- Edits are merged in order. -/
theorem ofEdits_inOrder (merged : ofEdits source edits = .ok fix) :
    ofEdits source (Edit.inOrder edits) = .ok fix := by
  obtain ⟨nonempty, valid, apart⟩ := of_ofEdits_eq_ok merged
  have noneInvalid (entries : List Edit) (same : ∀ edit ∈ entries, edit ∈ edits) :
      (entries.find? fun edit => !source.isValid edit.span) = none := by
    apply List.find?_eq_none.mpr
    intro edit member
    simp [valid edit (same edit member)]
  cases edits with
  | nil => exact absurd rfl nonempty
  | cons first rest =>
      cases ordered : Edit.inOrder (first :: rest) with
      | nil => simp [Edit.inOrder, stableSortBy] at ordered
      | cons first' rest' =>
          have sameOrder : Edit.inOrder (first' :: rest') = first' :: rest' := by
            rw [← ordered, Edit.inOrder_inOrder]
          have sameEdits : ∀ edit ∈ first' :: rest', edit ∈ first :: rest := by
            intro edit member
            rw [← ordered] at member
            exact Edit.mem_inOrder.mp member
          simp only [ofEdits, noneInvalid _ fun edit member => member, ordered] at merged
          simpa only [ofEdits, noneInvalid _ sameEdits, sameOrder] using merged

theorem chained_of_ofEdits_eq_ok (merged : ofEdits source edits = .ok fix) :
    Edit.Chained 0 (Edit.inOrder edits) := by
  obtain ⟨-, -, apart⟩ := of_ofEdits_eq_ok merged
  cases ordered : Edit.inOrder edits with
  | nil => trivial
  | cons first rest =>
      rw [ordered] at apart
      exact (Edit.chained_of_firstOverlap?_eq_none apart).weaken (Nat.zero_le _)

/-- The merged fix runs from the first edit to the last and replaces what they replace. -/
theorem exists_inOrder_of_ofEdits_eq_ok (merged : ofEdits source edits = .ok fix) :
    ∃ first rest, Edit.inOrder edits = first :: rest ∧ source.isValid fix.span = true ∧
      fix.span = ⟨first.span.start, Edit.lastStop 0 (first :: rest)⟩ ∧
      Replaced source (first :: rest) (applyAll source [fix]) := by
  obtain ⟨nonempty, valid, -⟩ := of_ofEdits_eq_ok merged
  have chained := chained_of_ofEdits_eq_ok merged
  have orderedMerged := ofEdits_inOrder merged
  cases ordered : Edit.inOrder edits with
  | nil => exact absurd (by simpa [Edit.inOrder, stableSortBy] using ordered) nonempty
  | cons first rest =>
      have orderedValid : ∀ edit ∈ first :: rest, source.isValid edit.span = true := by
        rw [← ordered]
        exact fun edit member => valid edit (Edit.mem_inOrder.mp member)
      rw [ordered] at chained orderedMerged
      obtain ⟨fix', merged', isValid, startEq, stopEq, -, replaced⟩ :=
        exists_ofEdits_of_chained chained orderedValid
      obtain rfl : fix = fix' := Except.ok.inj (orderedMerged.symm.trans merged')
      refine ⟨first, rest, rfl, isValid, ?_, replaced⟩
      rw [Edit.lastStop, ← startEq, ← stopEq]

/-- Edits that can be merged are all made in a pass of their own. -/
theorem replaced_applyAll_of_ofEdits_eq_ok (merged : ofEdits source edits = .ok fix) :
    Replaced source (Edit.inOrder edits) (applyAll source (edits.map Edit.asFix)) := by
  obtain ⟨-, valid, -⟩ := of_ofEdits_eq_ok merged
  have chained := chained_of_ofEdits_eq_ok merged
  have orderedValid : ∀ edit ∈ Edit.inOrder edits, source.isValid edit.span = true :=
    fun edit member => valid edit (Edit.mem_inOrder.mp member)
  have asEdits : ((Edit.inOrder edits).map Edit.asFix).map asEdit = Edit.inOrder edits := by
    rw [List.map_map]
    exact List.map_id _
  have allMade : selected source (edits.map Edit.asFix) = (Edit.inOrder edits).map Edit.asFix := by
    rw [selected, Edit.inOrder_map_asFix]
    apply selectFrom_eq_self
    · rw [asEdits]
      exact chained
    · intro made member
      obtain ⟨edit, editMem, rfl⟩ := List.mem_map.mp member
      exact orderedValid edit editMem
  have replaced := replaced_applyAll source (edits.map Edit.asFix)
  rw [allMade, asEdits] at replaced
  exact replaced

end Merged

/-- A merged fix runs from the smallest start to the largest end of its edits and can be
cut out of the source.  It has the effect of its edits made one at a time, the last one in
stable order first, and of its edits as fixes of one pass. -/
theorem merged_fix_makes_its_edits {source : Source} {edits : List Edit} {fix : Fix}
    (merged : ofEdits source edits = .ok fix) :
    (edits.map (·.span.start)).min? = some fix.span.start ∧
      (edits.map (·.span.stop)).max? = some fix.span.stop ∧
      source.isValid fix.span = true ∧
      IsStableOrder (·.span.start) edits (Edit.inOrder edits) ∧
      Edit.spliceAll? (Edit.inOrder edits) source = some (applyAll source [fix]) ∧
      applyAll source (edits.map Edit.asFix) = applyAll source [fix] := by
  obtain ⟨-, valid, -⟩ := of_ofEdits_eq_ok merged
  have chained := chained_of_ofEdits_eq_ok merged
  have asFixes := replaced_applyAll_of_ofEdits_eq_ok merged
  obtain ⟨first, rest, ordered, isValid, spanEq, replaced⟩ :=
    exists_inOrder_of_ofEdits_eq_ok merged
  have memIff (edit : Edit) : edit ∈ edits ↔ edit ∈ first :: rest := by
    rw [← ordered, Edit.mem_inOrder]
  have orderedValid : ∀ edit ∈ first :: rest, source.isValid edit.span = true :=
    fun edit member => valid edit ((memIff edit).mpr member)
  rw [ordered] at chained asFixes
  refine ⟨?_, ?_, isValid, Edit.isStableOrder_inOrder edits, ?_, asFixes.unique replaced⟩
  · rw [List.min?_eq_some_iff, spanEq]
    refine ⟨List.mem_map.mpr ⟨first, (memIff first).mpr (by simp), rfl⟩, ?_⟩
    intro start member
    obtain ⟨edit, editMem, rfl⟩ := List.mem_map.mp member
    have fromFirst : Edit.Chained first.span.start (first :: rest) := ⟨Nat.le_refl _, chained.2⟩
    exact Edit.le_start_of_chained fromFirst orderedValid edit ((memIff edit).mp editMem)
  · rw [List.max?_eq_some_iff, spanEq]
    obtain ⟨last, lastMem, lastEq⟩ := Edit.exists_lastStop_eq 0 first rest
    refine ⟨List.mem_map.mpr ⟨last, (memIff last).mpr lastMem, lastEq.symm⟩, ?_⟩
    intro stop member
    obtain ⟨edit, editMem, rfl⟩ := List.mem_map.mp member
    exact Edit.stop_le_lastStop_of_chained chained orderedValid edit ((memIff edit).mp editMem)
  · rw [ordered]
    exact replaced.spliceAll?_eq

/-- Two insertions at one place and a replacement behind a character of two bytes. -/
theorem merged_insertions_make_edits :
    ∃ fix, ofEdits "aé=b".toList [⟨⟨3, 4⟩, "!"⟩, ⟨⟨1, 1⟩, "x"⟩, ⟨⟨1, 1⟩, "y"⟩] = .ok fix ∧
      fix.span = ⟨1, 4⟩ ∧
      Edit.spliceAll? [⟨⟨1, 1⟩, "x"⟩, ⟨⟨1, 1⟩, "y"⟩, ⟨⟨3, 4⟩, "!"⟩] "aé=b".toList =
        some "axyé!b".toList ∧
      applyAll "aé=b".toList [fix] = "axyé!b".toList := by
  have merged : ofEdits "aé=b".toList [⟨⟨3, 4⟩, "!"⟩, ⟨⟨1, 1⟩, "x"⟩, ⟨⟨1, 1⟩, "y"⟩] =
      .ok ⟨⟨1, 4⟩, "xyé!"⟩ := by decide +kernel
  obtain ⟨-, -, -, -, oneByOne, -⟩ := merged_fix_makes_its_edits merged
  have ordered : Edit.inOrder [⟨⟨3, 4⟩, "!"⟩, ⟨⟨1, 1⟩, "x"⟩, ⟨⟨1, 1⟩, "y"⟩] =
      [⟨⟨1, 1⟩, "x"⟩, ⟨⟨1, 1⟩, "y"⟩, ⟨⟨3, 4⟩, "!"⟩] := by decide +kernel
  have result : Edit.spliceAll? [⟨⟨1, 1⟩, "x"⟩, ⟨⟨1, 1⟩, "y"⟩, ⟨⟨3, 4⟩, "!"⟩]
      "aé=b".toList = some "axyé!b".toList := by decide +kernel
  rw [ordered, result] at oneByOne
  exact ⟨_, merged, rfl, result, (Option.some.inj oneByOne).symm⟩

end Fix

end AssertLint
