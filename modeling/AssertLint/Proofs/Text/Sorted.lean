import AssertLint.Text.StableSort
import Mathlib.Data.List.Sort

/-!
# What the stable sort keeps

Sorting loses and invents nothing, and it leaves a list alone whose entries are
in order already.  When entries are compared by keys, a selection of entries can
be sorted by itself, a sorted list is known from its entries of each key, and what
relates the entries along it can be read off the entries as given.
-/

namespace AssertLint

theorem insertStable_perm {α : Type} (mayPrecede : α → α → Bool) (entry : α)
    (entries : List α) :
    (insertStable mayPrecede entry entries).Perm (entry :: entries) := by
  induction entries with
  | nil => exact List.Perm.refl _
  | cons other rest ih =>
      rw [insertStable]
      split
      · exact List.Perm.refl _
      · exact (List.Perm.cons other ih).trans (List.Perm.swap entry other rest)

theorem stableSort_perm {α : Type} (mayPrecede : α → α → Bool) (entries : List α) :
    (stableSort mayPrecede entries).Perm entries := by
  induction entries with
  | nil => exact List.Perm.refl _
  | cons entry rest ih =>
      exact (insertStable_perm mayPrecede entry _).trans (List.Perm.cons entry ih)

@[simp]
theorem mem_stableSort {α : Type} {mayPrecede : α → α → Bool} {entry : α}
    {entries : List α} :
    entry ∈ stableSort mayPrecede entries ↔ entry ∈ entries :=
  (stableSort_perm mayPrecede entries).mem_iff

@[simp]
theorem stableSort_eq_nil_iff {α : Type} {mayPrecede : α → α → Bool} {entries : List α} :
    stableSort mayPrecede entries = [] ↔ entries = [] := by
  have permuted := stableSort_perm mayPrecede entries
  constructor
  · intro sortedNil
    rw [sortedNil] at permuted
    exact List.nil_perm.mp permuted
  · rintro rfl
    rfl

/-- Entries that are in order stay where they are. -/
theorem stableSort_eq_self {α : Type} {mayPrecede : α → α → Bool} {entries : List α}
    (inOrder : entries.Pairwise fun first second => mayPrecede first second = true) :
    stableSort mayPrecede entries = entries := by
  induction entries with
  | nil => rfl
  | cons entry rest ih =>
      obtain ⟨entryFirst, restInOrder⟩ := List.pairwise_cons.mp inOrder
      change insertStable mayPrecede entry (stableSort mayPrecede rest) = entry :: rest
      rw [ih restInOrder]
      cases rest with
      | nil => rfl
      | cons other others =>
          rw [insertStable, if_pos (entryFirst other (by simp))]

theorem stableSort_map {α β : Type} {mayPrecede : α → α → Bool}
    {mayPrecede' : β → β → Bool} {image : α → β}
    (kept : ∀ first second,
      mayPrecede' (image first) (image second) = mayPrecede first second) (entries : List α) :
    stableSort mayPrecede' (entries.map image) =
      (stableSort mayPrecede entries).map image := by
  have insertEq (entry : α) (sorted : List α) :
      insertStable mayPrecede' (image entry) (sorted.map image) =
        (insertStable mayPrecede entry sorted).map image := by
    induction sorted with
    | nil => rfl
    | cons other rest ih =>
        rw [List.map_cons, insertStable, insertStable, kept]
        split
        · rfl
        · rw [List.map_cons, ih]
  induction entries with
  | nil => rfl
  | cons entry rest ih =>
      change insertStable mayPrecede' (image entry) (stableSort mayPrecede' (rest.map image)) =
        (insertStable mayPrecede entry (stableSort mayPrecede rest)).map image
      rw [ih, insertEq]

/-- Entries are compared by their keys. -/
def ComparesBy {α κ : Type} [LinearOrder κ] (mayPrecede : α → α → Bool) (key : α → κ) : Prop :=
  ∀ first second, mayPrecede first second = true ↔ key first ≤ key second

section Keys

variable {α κ : Type} [LinearOrder κ] {mayPrecede : α → α → Bool} {key : α → κ}

theorem stableSort_eq_insertionSort (byKey : ComparesBy mayPrecede key) (entries : List α) :
    stableSort mayPrecede entries =
      entries.insertionSort fun first second => key first ≤ key second := by
  have insertEq (entry : α) (sorted : List α) :
      insertStable mayPrecede entry sorted =
        sorted.orderedInsert (fun first second => key first ≤ key second) entry := by
    induction sorted with
    | nil => rfl
    | cons other rest ih =>
        rw [insertStable, List.orderedInsert_cons, ih]
        simp only [byKey entry other]
  induction entries with
  | nil => rfl
  | cons entry rest ih =>
      rw [List.insertionSort_cons, ← ih, ← insertEq]
      rfl

theorem pairwise_stableSort (byKey : ComparesBy mayPrecede key) (entries : List α) :
    (stableSort mayPrecede entries).Pairwise fun first second => key first ≤ key second := by
  have total : Std.Total fun first second : α => key first ≤ key second :=
    ⟨fun first second => le_total (key first) (key second)⟩
  have transitive : IsTrans α fun first second => key first ≤ key second :=
    ⟨fun _ _ _ => le_trans⟩
  rw [stableSort_eq_insertionSort byKey]
  exact List.pairwise_insertionSort _ entries

/-- Inserting an entry into a sorted list and selecting entries can be exchanged. -/
theorem filter_insertStable (byKey : ComparesBy mayPrecede key) (selected : α → Bool)
    (entry : α) {sorted : List α}
    (inOrder : sorted.Pairwise fun first second => key first ≤ key second) :
    (insertStable mayPrecede entry sorted).filter selected =
      if selected entry then insertStable mayPrecede entry (sorted.filter selected)
      else sorted.filter selected := by
  induction sorted with
  | nil => cases chosen : selected entry <;> simp [insertStable, chosen]
  | cons other rest ih =>
      obtain ⟨otherFirst, restInOrder⟩ := List.pairwise_cons.mp inOrder
      rw [insertStable]
      by_cases precedes : mayPrecede entry other = true
      · rw [if_pos precedes, List.filter_cons]
        split
        · -- Everything that is selected has to stand behind the entry as well.
          have precedesAll : ∀ later ∈ (other :: rest).filter selected,
              mayPrecede entry later = true := by
            intro later member
            have entryLe := (byKey entry other).mp precedes
            rcases List.mem_cons.mp (List.mem_filter.mp member).1 with rfl | inRest
            · exact precedes
            · exact (byKey entry later).mpr (entryLe.trans (otherFirst later inRest))
          cases kept : (other :: rest).filter selected with
          | nil => rfl
          | cons first others =>
              rw [insertStable, if_pos (precedesAll first (by simp [kept]))]
        · rfl
      · rw [if_neg precedes, List.filter_cons, ih restInOrder]
        cases chosen : selected other with
        | true =>
            cases selected entry with
            | true => simp [chosen, insertStable, precedes]
            | false => simp [chosen]
        | false => simp [chosen]

/-- A selection of entries is sorted as it is among all entries. -/
theorem filter_stableSort (byKey : ComparesBy mayPrecede key) (selected : α → Bool)
    (entries : List α) :
    (stableSort mayPrecede entries).filter selected =
      stableSort mayPrecede (entries.filter selected) := by
  induction entries with
  | nil => rfl
  | cons entry rest ih =>
      change (insertStable mayPrecede entry (stableSort mayPrecede rest)).filter selected = _
      rw [filter_insertStable byKey selected entry (pairwise_stableSort byKey rest), ih,
        List.filter_cons]
      split <;> rfl

theorem mem_iff_of_filter_key_eq {entries entries' : List α}
    (sameEntries : ∀ value, entries.filter (fun entry => key entry = value) =
      entries'.filter fun entry => key entry = value) (entry : α) :
    entry ∈ entries ↔ entry ∈ entries' := by
  have filtered := congrArg (entry ∈ ·) (sameEntries (key entry))
  simpa using filtered

/-- A sorted list is known from its entries of each key. -/
theorem eq_of_filter_key_eq {sorted sorted' : List α}
    (inOrder : sorted.Pairwise fun first second => key first ≤ key second)
    (inOrder' : sorted'.Pairwise fun first second => key first ≤ key second)
    (sameEntries : ∀ value, sorted.filter (fun entry => key entry = value) =
      sorted'.filter fun entry => key entry = value) : sorted = sorted' := by
  have memIff := mem_iff_of_filter_key_eq sameEntries
  induction sorted generalizing sorted' with
  | nil =>
      cases sorted' with
      | nil => rfl
      | cons first rest => simpa using memIff first
  | cons entry rest ih =>
      cases sorted' with
      | nil => simpa using memIff entry
      | cons entry' rest' =>
          obtain ⟨entryFirst, restInOrder⟩ := List.pairwise_cons.mp inOrder
          obtain ⟨entryFirst', restInOrder'⟩ := List.pairwise_cons.mp inOrder'
          have keyLe : key entry ≤ key entry' := by
            rcases List.mem_cons.mp ((memIff entry').mpr List.mem_cons_self) with rfl | later
            · exact le_refl _
            · exact entryFirst entry' later
          have keyLe' : key entry' ≤ key entry := by
            rcases List.mem_cons.mp ((memIff entry).mp List.mem_cons_self) with rfl | later
            · exact le_refl _
            · exact entryFirst' entry later
          have keyEq : key entry = key entry' := le_antisymm keyLe keyLe'
          have atKey := sameEntries (key entry)
          simp only [List.filter_cons, keyEq, decide_true, if_true, List.cons.injEq] at atKey
          obtain ⟨rfl, restAtKey⟩ := atKey
          have restSame : ∀ value, rest.filter (fun other => key other = value) =
              rest'.filter fun other => key other = value := by
            intro value
            by_cases isKey : key entry = value
            · rw [← isKey]
              exact restAtKey
            · simpa [List.filter_cons, isKey] using sameEntries value
          rw [ih restInOrder restInOrder' restSame (mem_iff_of_filter_key_eq restSame)]

/-- Entries of one key keep their order. -/
theorem filter_key_stableSort (byKey : ComparesBy mayPrecede key) (entries : List α) (value : κ) :
    (stableSort mayPrecede entries).filter (fun entry => key entry = value) =
      entries.filter fun entry => key entry = value := by
  rw [filter_stableSort byKey]
  apply stableSort_eq_self
  apply List.pairwise_of_forall_mem_list
  intro first firstMem second secondMem
  have firstKey : key first = value := by simpa using (List.mem_filter.mp firstMem).2
  have secondKey : key second = value := by simpa using (List.mem_filter.mp secondMem).2
  exact (byKey first second).mpr (firstKey.trans secondKey.symm).le

theorem filter_flatMap_replicate (entries : List α) (count : α → Nat) (selected : α → Bool) :
    (entries.flatMap fun entry => List.replicate (count entry) entry).filter selected =
      (entries.filter selected).flatMap fun entry => List.replicate (count entry) entry := by
  induction entries with
  | nil => rfl
  | cons entry rest ih =>
      rw [List.flatMap_cons, List.filter_append, List.filter_replicate, ih, List.filter_cons]
      split <;> simp

/-- Repetitions that follow each other keep together. -/
theorem stableSort_flatMap_replicate (byKey : ComparesBy mayPrecede key) (entries : List α)
    (count : α → Nat) :
    stableSort mayPrecede (entries.flatMap fun entry => List.replicate (count entry) entry) =
      (stableSort mayPrecede entries).flatMap fun entry =>
        List.replicate (count entry) entry := by
  apply eq_of_filter_key_eq (pairwise_stableSort byKey _)
  · rw [List.pairwise_flatMap]
    refine ⟨fun entry _ => List.pairwise_replicate.mpr (Or.inr (le_refl (key entry))), ?_⟩
    apply (pairwise_stableSort byKey entries).imp
    intro first second firstLe one oneMem other otherMem
    rw [List.eq_of_mem_replicate oneMem, List.eq_of_mem_replicate otherMem]
    exact firstLe
  · intro value
    rw [filter_key_stableSort byKey, filter_flatMap_replicate, filter_flatMap_replicate,
      filter_key_stableSort byKey]

/-- What holds between the entries of a sorted list and an entry inserted into it. -/
theorem pairwise_insertStable_iff (byKey : ComparesBy mayPrecede key)
    (related : α → α → Prop) (entry : α) {sorted : List α}
    (inOrder : sorted.Pairwise fun first second => key first ≤ key second) :
    (insertStable mayPrecede entry sorted).Pairwise related ↔
      (∀ other ∈ sorted,
        if mayPrecede entry other then related entry other else related other entry) ∧
      sorted.Pairwise related := by
  induction sorted with
  | nil => simp [insertStable]
  | cons other rest ih =>
      obtain ⟨otherFirst, restInOrder⟩ := List.pairwise_cons.mp inOrder
      rw [insertStable]
      by_cases precedes : mayPrecede entry other = true
      · have precedesAll : ∀ later ∈ other :: rest, mayPrecede entry later = true := by
          intro later member
          have entryLe := (byKey entry other).mp precedes
          rcases List.mem_cons.mp member with rfl | inRest
          · exact precedes
          · exact (byKey entry later).mpr (entryLe.trans (otherFirst later inRest))
        rw [if_pos precedes, List.pairwise_cons]
        refine and_congr_left fun _ => forall₂_congr fun later member => ?_
        rw [if_pos (precedesAll later member)]
      · have memIff (later : α) :
            later ∈ insertStable mayPrecede entry rest ↔ later = entry ∨ later ∈ rest := by
          rw [(insertStable_perm mayPrecede entry rest).mem_iff, List.mem_cons]
        rw [if_neg precedes, List.pairwise_cons, ih restInOrder, List.forall_mem_cons,
          List.pairwise_cons, if_neg precedes]
        simp only [memIff, forall_eq_or_imp]
        tauto

/-- A relation holds along the sorted list if it holds between any two entries, taken in
the order in which the sort puts them. -/
theorem pairwise_stableSort_iff (byKey : ComparesBy mayPrecede key)
    (related : α → α → Prop) (entries : List α) :
    (stableSort mayPrecede entries).Pairwise related ↔
      entries.Pairwise fun first second =>
        if mayPrecede first second then related first second else related second first := by
  induction entries with
  | nil => simp [stableSort]
  | cons entry rest ih =>
      change (insertStable mayPrecede entry (stableSort mayPrecede rest)).Pairwise related ↔ _
      rw [pairwise_insertStable_iff byKey related entry (pairwise_stableSort byKey rest), ih,
        List.pairwise_cons]
      simp only [mem_stableSort]

/-- Entries with different keys are put in the same order, however they are given. -/
theorem stableSort_eq_of_perm (byKey : ComparesBy mayPrecede key) {entries entries' : List α}
    (permuted : entries'.Perm entries) (distinct : (entries.map key).Nodup) :
    stableSort mayPrecede entries' = stableSort mayPrecede entries := by
  apply List.Perm.eq_of_pairwise ?_ (pairwise_stableSort byKey entries')
    (pairwise_stableSort byKey entries)
  · exact (stableSort_perm _ _).trans (permuted.trans (stableSort_perm _ _).symm)
  · intro first second firstMem secondMem firstLe secondLe
    exact List.inj_on_of_nodup_map distinct (permuted.mem_iff.mp (mem_stableSort.mp firstMem))
      (mem_stableSort.mp secondMem) (le_antisymm firstLe secondLe)

end Keys

/-- A list holds the entries of another one in the order of their keys, and entries
with one key in the order in which they came. -/
structure IsStableOrder {α : Type} (key : α → Nat) (entries ordered : List α) : Prop where
  perm : ordered.Perm entries
  inOrder : ordered.Pairwise fun first second => key first ≤ key second
  stable : ∀ value, ordered.filter (fun entry => key entry = value) =
    entries.filter fun entry => key entry = value

theorem comparesBy_decide_le {α : Type} (key : α → Nat) :
    ComparesBy (fun first second => decide (key first ≤ key second)) key := by
  intro first second
  exact decide_eq_true_iff

theorem isStableOrder_stableSortBy {α : Type} (key : α → Nat) (entries : List α) :
    IsStableOrder key entries (stableSortBy key entries) where
  perm := stableSort_perm _ entries
  inOrder := pairwise_stableSort (comparesBy_decide_le key) entries
  stable := filter_key_stableSort (comparesBy_decide_le key) entries

end AssertLint
