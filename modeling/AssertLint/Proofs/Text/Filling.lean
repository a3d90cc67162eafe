import AssertLint.Proofs.Text.Sorted
import AssertLint.Text.Template
import Mathlib.Data.List.Infix
import Mathlib.Data.List.Perm.Basic

/-!
# Filled templates

A template consists of text without braces and of holes, the placeholders of
names.  Names are filled in one after the other, each over the text that the
names before it have left.  So a value goes in as it is only as long as no later
name finds its placeholder in the values that are there already.  This file says
what filling does up to that point and shows that the condition is exact.
-/

namespace AssertLint

namespace Template

/-- A text without braces. -/
def BraceFree (text : List Char) : Prop := '{' ∉ text ∧ '}' ∉ text

instance (text : List Char) : Decidable (BraceFree text) :=
  inferInstanceAs (Decidable (_ ∧ _))

/-- A piece of a template: text to copy, or the placeholder of a name. -/
inductive Piece where
  | copied (text : List Char)
  | hole (name : String)
  deriving DecidableEq

namespace Piece

/-- The text to copy has no braces, and neither has the name of a hole, which is
not empty. -/
def IsPlain : Piece → Prop
  | copied text => BraceFree text
  | hole name => name ≠ "" ∧ BraceFree name.toList

instance (piece : Piece) : Decidable piece.IsPlain :=
  match piece with
  | copied text => inferInstanceAs (Decidable (BraceFree text))
  | hole name => inferInstanceAs (Decidable (name ≠ "" ∧ BraceFree name.toList))

def written : Piece → List Char
  | copied text => text
  | hole name => placeholder name

/-- The piece with the value of its name, if there is one. -/
def filled (data : List (String × String)) : Piece → List Char
  | copied text => text
  | hole name =>
      match data.lookup name with
      | some value => value.toList
      | none => placeholder name

end Piece

/-- The text of a template. -/
def written (pieces : List Piece) : List Char := pieces.flatMap Piece.written

/-- The template with every hole replaced by the value of its name, once and as it
is.  Holes of other names stay. -/
def filledIn (data : List (String × String)) (pieces : List Piece) : List Char :=
  pieces.flatMap (Piece.filled data)

/-- Fills in names in the order in which they are given. -/
def fillEach (entries : List (String × String)) (text : List Char) : List Char :=
  entries.foldl (fun text entry => replaceAll (placeholder entry.1) entry.2.toList text) text

/-- Wherever the placeholder of a name can be read in a template that is filled in so
far, the template has a hole of that name. -/
def ReadsOnlyHoles (done : List (String × String)) (pieces : List Piece) (name : String) : Prop :=
  ∀ before after, filledIn done pieces = before ++ placeholder name ++ after →
    ∃ earlier later, pieces = earlier ++ .hole name :: later ∧ before = filledIn done earlier

/-- When the turn of a name comes, the values of the names before it have not brought in
a placeholder of it. -/
def Undisturbed (pieces : List Piece) (entries : List (String × String)) : Prop :=
  ∀ done name value rest, entries = done ++ (name, value) :: rest →
    ReadsOnlyHoles done pieces name

/-! ## Replacing a pattern -/

section Replacing

variable {pattern replacement : List Char}

theorem replaceFrom_length (passed rest : List Char) :
    replaceFrom pattern replacement passed.length (passed ++ rest) =
      replaceAll pattern replacement rest := by
  induction passed with
  | nil => rfl
  | cons character passed ih =>
      rw [List.length_cons, List.cons_append, replaceFrom]
      exact ih

theorem replaceAll_of_isPrefix (nonempty : pattern ≠ []) (rest : List Char) :
    replaceAll pattern replacement (pattern ++ rest) =
      replacement ++ replaceAll pattern replacement rest := by
  obtain ⟨character, others, rfl⟩ := List.exists_cons_of_ne_nil nonempty
  have starts : (character :: others).isPrefixOf (character :: (others ++ rest)) = true := by
    rw [List.isPrefixOf_iff_prefix]
    exact List.prefix_append (character :: others) rest
  rw [replaceAll, List.cons_append, replaceFrom, if_pos starts]
  exact congrArg (replacement ++ ·) (replaceFrom_length others rest)

/-- The pattern starts somewhere in the front part of a text. -/
def StartsIn (pattern front rest : List Char) : Prop :=
  ∃ skipped kept, front = skipped ++ kept ∧ kept ≠ [] ∧ pattern <+: kept ++ rest

/-- A front part in which the pattern does not start stays as it is.  Otherwise it
stays up to the first place where the pattern starts. -/
theorem replaceAll_append (nonempty : pattern ≠ []) (front rest : List Char) :
    (¬ StartsIn pattern front rest ∧
      replaceAll pattern replacement (front ++ rest) =
        front ++ replaceAll pattern replacement rest) ∨
    ∃ skipped kept others, front = skipped ++ kept ∧ kept ≠ [] ∧ pattern <+: kept ++ rest ∧
      replaceAll pattern replacement (front ++ rest) = skipped ++ (replacement ++ others) := by
  induction front with
  | nil =>
      refine Or.inl ⟨?_, rfl⟩
      rintro ⟨skipped, kept, isNil, keptSome, -⟩
      exact keptSome (List.append_eq_nil_iff.mp isNil.symm).2
  | cons character front ih =>
      by_cases starts : pattern <+: character :: (front ++ rest)
      · obtain ⟨others, textEq⟩ := starts
        refine Or.inr ⟨[], character :: front, replaceAll pattern replacement others, rfl,
          List.cons_ne_nil _ _, ⟨others, textEq⟩, ?_⟩
        rw [List.cons_append, ← textEq, replaceAll_of_isPrefix nonempty, List.nil_append]
      · have stays : replaceAll pattern replacement (character :: front ++ rest) =
            character :: replaceAll pattern replacement (front ++ rest) := by
          rw [replaceAll, List.cons_append, replaceFrom,
            if_neg (fun isPrefix => starts (List.isPrefixOf_iff_prefix.mp isPrefix))]
          rfl
        rcases ih with ⟨notIn, restEq⟩ | ⟨skipped, kept, others, rfl, keptSome, isPrefix, restEq⟩
        · refine Or.inl ⟨?_, by rw [stays, restEq, List.cons_append]⟩
          rintro ⟨skipped, kept, frontEq, keptSome, isPrefix⟩
          cases skipped with
          | nil =>
              rw [List.nil_append] at frontEq
              exact starts (by simpa [← frontEq] using isPrefix)
          | cons first skipped =>
              exact notIn ⟨skipped, kept, (List.cons.inj frontEq).2, keptSome, isPrefix⟩
        · exact Or.inr ⟨character :: skipped, kept, others, rfl, keptSome, isPrefix, by
            rw [stays, restEq, List.cons_append]⟩

end Replacing

/-! ## Placeholders -/

section Placeholders

variable {name other : String} {skipped kept rest : List Char}

theorem placeholder_eq (name : String) :
    placeholder name = '{' :: '{' :: (name.toList ++ ['}', '}']) := rfl

theorem placeholder_ne_nil (name : String) : placeholder name ≠ [] :=
  List.cons_ne_nil _ _

/-- A placeholder can only start at an opening brace. -/
theorem head?_of_placeholder (keptSome : kept ≠ []) (reads : placeholder name <+: kept ++ rest) :
    kept.head? = some '{' := by
  obtain ⟨first, others, rfl⟩ := List.exists_cons_of_ne_nil keptSome
  rw [placeholder_eq, List.cons_append, List.cons_prefix_cons] at reads
  rw [List.head?_cons, ← reads.1]

theorem mem_of_placeholder (keptSome : kept ≠ []) (reads : placeholder name <+: kept ++ rest) :
    '{' ∈ kept :=
  List.mem_of_head? (head?_of_placeholder keptSome reads)

/-- No placeholder starts inside of another one. -/
theorem skipped_eq_nil_of_placeholder (braceFree : BraceFree other.toList)
    (splits : placeholder other = skipped ++ kept) (keptSome : kept ≠ [])
    (reads : placeholder name <+: kept ++ rest) : skipped = [] := by
  have closingFree : '{' ∉ other.toList ++ ['}', '}'] := by
    simpa using braceFree.1
  rw [placeholder_eq] at splits
  match skipped with
  | [] => rfl
  | [_] =>
      -- The second brace would have to be followed by a third one.
      obtain ⟨-, rfl⟩ := List.cons.inj splits
      rw [placeholder_eq, List.cons_append, List.cons_prefix_cons] at reads
      have closingSome : other.toList ++ ['}', '}'] ≠ [] := by simp
      obtain ⟨first, others, closingEq⟩ := List.exists_cons_of_ne_nil closingSome
      rw [closingEq, List.cons_append, List.cons_prefix_cons] at reads
      rw [closingEq, ← reads.2.1] at closingFree
      exact absurd List.mem_cons_self closingFree
  | _ :: _ :: more =>
      obtain ⟨-, closingEq⟩ := List.cons.inj (List.cons.inj splits).2
      have keptMem := mem_of_placeholder keptSome reads
      rw [closingEq] at closingFree
      exact absurd (List.mem_append_right more keptMem) closingFree

theorem eq_of_closing {first second : List Char} (firstFree : '}' ∉ first)
    (secondFree : '}' ∉ second) (reads : first ++ ['}', '}'] <+: second ++ ['}', '}'] ++ rest) :
    first = second := by
  induction first generalizing second with
  | nil =>
      cases second with
      | nil => rfl
      | cons character second =>
          have isBrace := (List.cons_prefix_cons.mp reads).1
          simp [← isBrace] at secondFree
  | cons character first ih =>
      cases second with
      | nil =>
          have isBrace := (List.cons_prefix_cons.mp reads).1
          simp [isBrace] at firstFree
      | cons character' second =>
          obtain ⟨rfl, othersRead⟩ := List.cons_prefix_cons.mp reads
          rw [ih (fun inFirst => firstFree (List.mem_cons_of_mem _ inFirst))
            (fun inSecond => secondFree (List.mem_cons_of_mem _ inSecond)) othersRead]

/-- Where a placeholder is written, no other name is read. -/
theorem eq_of_placeholder_isPrefix (nameFree : BraceFree name.toList)
    (otherFree : BraceFree other.toList)
    (reads : placeholder name <+: placeholder other ++ rest) : name = other := by
  rw [placeholder_eq, placeholder_eq, List.cons_append, List.cons_append, List.cons_prefix_cons,
    List.cons_prefix_cons] at reads
  exact String.toList_inj.mp (eq_of_closing nameFree.2 otherFree.2 reads.2.2)

end Placeholders

/-! ## Filling in one name -/

section Step

variable {done : List (String × String)} {name : String} {value : String} {pieces : List Piece}

@[simp]
theorem filledIn_cons (data : List (String × String)) (piece : Piece) (pieces : List Piece) :
    filledIn data (piece :: pieces) = piece.filled data ++ filledIn data pieces := rfl

theorem filledIn_nil (pieces : List Piece) : filledIn [] pieces = written pieces := by
  apply List.flatMap_congr
  intro piece _
  cases piece <;> rfl

theorem lookup_eq_none_of_not_mem (fresh : name ∉ done.map Prod.fst) :
    done.lookup name = none := by
  rw [List.lookup_eq_none_iff]
  intro entry member
  simpa using fun same => fresh (List.mem_map.mpr ⟨entry, member, same.symm⟩)

theorem filled_hole (fresh : name ∉ done.map Prod.fst) :
    (Piece.hole name).filled done = placeholder name := by
  rw [Piece.filled, lookup_eq_none_of_not_mem fresh]

theorem filled_hole_concat (fresh : name ∉ done.map Prod.fst) :
    (Piece.hole name).filled (done ++ [(name, value)]) = value.toList := by
  simp [Piece.filled, List.lookup_append, lookup_eq_none_of_not_mem fresh]

theorem filled_concat_of_ne {piece : Piece} (differs : piece ≠ .hole name) :
    piece.filled (done ++ [(name, value)]) = piece.filled done := by
  cases piece with
  | copied text => rfl
  | hole other =>
      have otherName : ¬ other = name := fun same => differs (congrArg Piece.hole same)
      have notFound : List.lookup other [(name, value)] = none := by
        simp [otherName]
      rw [Piece.filled, List.lookup_append, notFound, Option.or_none, Piece.filled]

/-- A template has no placeholder of a name but its holes if none starts in its first
piece, unless this is a hole, and the rest has none either. -/
theorem readsOnlyHoles_cons_iff {piece : Piece} (fresh : name ∉ done.map Prod.fst) :
    ReadsOnlyHoles done (piece :: pieces) name ↔
      (∀ skipped kept, piece.filled done = skipped ++ kept → kept ≠ [] →
        placeholder name <+: kept ++ filledIn done pieces →
          piece = .hole name ∧ skipped = []) ∧
      ReadsOnlyHoles done pieces name := by
  constructor
  · intro onlyHoles
    constructor
    · rintro skipped kept filledEq keptSome ⟨after, reads⟩
      obtain ⟨earlier, later, piecesEq, skippedEq⟩ := onlyHoles skipped after (by
        rw [filledIn_cons, filledEq, List.append_assoc, ← reads, List.append_assoc])
      cases earlier with
      | nil => exact ⟨(List.cons.inj piecesEq).1, skippedEq⟩
      | cons first earlier =>
          -- The hole would start behind a piece that has not ended yet.
          obtain ⟨rfl, -⟩ := List.cons.inj piecesEq
          rw [filledIn_cons, filledEq, List.append_assoc, List.self_eq_append_right,
            List.append_eq_nil_iff] at skippedEq
          exact absurd skippedEq.1 keptSome
    · intro before after textEq
      obtain ⟨earlier, later, piecesEq, beforeEq⟩ := onlyHoles (piece.filled done ++ before) after
        (by rw [filledIn_cons, textEq, List.append_assoc, List.append_assoc, List.append_assoc])
      cases earlier with
      | nil =>
          obtain ⟨rfl, -⟩ := List.cons.inj piecesEq
          rw [filled_hole fresh] at beforeEq
          exact absurd (List.append_eq_nil_iff.mp beforeEq).1 (placeholder_ne_nil name)
      | cons first earlier =>
          obtain ⟨rfl, restEq⟩ := List.cons.inj piecesEq
          exact ⟨earlier, later, restEq, List.append_cancel_left beforeEq⟩
  · rintro ⟨startsAtHole, onlyHoles⟩ before after textEq
    rw [filledIn_cons, List.append_assoc] at textEq
    rcases List.append_eq_append_iff.mp textEq with ⟨middle, beforeEq, restEq⟩ |
      ⟨kept, filledEq, readEq⟩
    · obtain ⟨earlier, later, rfl, middleEq⟩ :=
        onlyHoles middle after (by rw [restEq, List.append_assoc])
      exact ⟨piece :: earlier, later, rfl, by rw [beforeEq, filledIn_cons, middleEq]⟩
    · by_cases keptNil : kept = []
      · subst keptNil
        obtain ⟨earlier, later, rfl, isNil⟩ := onlyHoles [] after readEq.symm
        refine ⟨piece :: earlier, later, rfl, ?_⟩
        rw [filledIn_cons, ← isNil, filledEq, List.append_nil, List.append_nil]
      · obtain ⟨rfl, rfl⟩ := startsAtHole before kept filledEq keptNil ⟨after, readEq⟩
        exact ⟨[], pieces, rfl, rfl⟩

/-- Filling in a name fills its holes and leaves all else as it is if its placeholder
can be read nowhere else. -/
theorem replaceAll_filledIn (value : String) (fresh : name ∉ done.map Prod.fst)
    (onlyHoles : ReadsOnlyHoles done pieces name) :
    replaceAll (placeholder name) value.toList (filledIn done pieces) =
      filledIn (done ++ [(name, value)]) pieces := by
  induction pieces with
  | nil => rfl
  | cons piece pieces ih =>
      obtain ⟨startsAtHole, restHoles⟩ := (readsOnlyHoles_cons_iff fresh).mp onlyHoles
      rw [filledIn_cons, filledIn_cons, ← ih restHoles]
      by_cases isHole : piece = .hole name
      · rw [isHole, filled_hole fresh, filled_hole_concat fresh,
          replaceAll_of_isPrefix (placeholder_ne_nil name)]
      · rw [filled_concat_of_ne isHole]
        rcases replaceAll_append (placeholder_ne_nil name) (piece.filled done)
            (filledIn done pieces) with
          ⟨-, stays⟩ | ⟨skipped, kept, -, filledEq, keptSome, reads, -⟩
        · exact stays
        · exact absurd (startsAtHole skipped kept filledEq keptSome reads).1 isHole

/-- Conversely, when a value that does not start with an opening brace goes in as it is,
its placeholder could be read nowhere else. -/
theorem readsOnlyHoles_of_replaceAll_eq (fresh : name ∉ done.map Prod.fst)
    (braceFree : BraceFree name.toList) {first : Char} (head : value.toList.head? = some first)
    (noBrace : first ≠ '{')
    (verbatim : replaceAll (placeholder name) value.toList (filledIn done pieces) =
      filledIn (done ++ [(name, value)]) pieces) : ReadsOnlyHoles done pieces name := by
  induction pieces with
  | nil =>
      intro before after textEq
      have isNil := List.append_eq_nil_iff.mp textEq.symm
      exact absurd (List.append_eq_nil_iff.mp isNil.1).2 (placeholder_ne_nil name)
  | cons piece pieces ih =>
      rw [readsOnlyHoles_cons_iff fresh]
      rw [filledIn_cons, filledIn_cons] at verbatim
      by_cases isHole : piece = .hole name
      · subst isHole
        rw [filled_hole fresh, filled_hole_concat fresh,
          replaceAll_of_isPrefix (placeholder_ne_nil name)] at verbatim
        rw [filled_hole fresh]
        refine ⟨?_, ih (List.append_cancel_left verbatim)⟩
        intro skipped kept splits keptSome reads
        exact ⟨rfl, skipped_eq_nil_of_placeholder braceFree splits keptSome reads⟩
      · rw [filled_concat_of_ne isHole] at verbatim
        rcases replaceAll_append (placeholder_ne_nil name) (piece.filled done)
            (filledIn done pieces) with ⟨notIn, stays⟩ |
              ⟨skipped, kept, others, filledEq, keptSome, reads, replaced⟩
        · rw [stays] at verbatim
          refine ⟨?_, ih (List.append_cancel_left verbatim)⟩
          intro skipped kept splits keptSome reads
          exact absurd ⟨skipped, kept, splits, keptSome, reads⟩ notIn
        · -- The value would stand where the placeholder has started with a brace.
          rw [replaced, filledEq, List.append_assoc] at verbatim
          have headEq := congrArg List.head? (List.append_cancel_left verbatim)
          rw [List.head?_append, List.head?_append, head, head?_of_placeholder keptSome reads,
            Option.some_or, Option.some_or, Option.some.injEq] at headEq
          exact absurd headEq noBrace

/-- Values without an opening brace bring in no placeholder. -/
theorem readsOnlyHoles_of_noBrace (plain : ∀ piece ∈ pieces, piece.IsPlain)
    (fresh : name ∉ done.map Prod.fst) (braceFree : BraceFree name.toList)
    (noBrace : ∀ entry ∈ done, '{' ∉ entry.2.toList) : ReadsOnlyHoles done pieces name := by
  induction pieces with
  | nil =>
      intro before after textEq
      have isNil := List.append_eq_nil_iff.mp textEq.symm
      exact absurd (List.append_eq_nil_iff.mp isNil.1).2 (placeholder_ne_nil name)
  | cons piece pieces ih =>
      obtain ⟨piecePlain, restPlain⟩ := List.forall_mem_cons.mp plain
      rw [readsOnlyHoles_cons_iff fresh]
      refine ⟨?_, ih restPlain⟩
      intro skipped kept filledEq keptSome reads
      have braceMem : '{' ∈ piece.filled done := by
        rw [filledEq]
        exact List.mem_append_right skipped (mem_of_placeholder keptSome reads)
      cases piece with
      | copied text => exact absurd braceMem piecePlain.1
      | hole other =>
          cases found : done.lookup other with
          | some inserted =>
              obtain ⟨before, after, doneEq, -⟩ := List.lookup_eq_some_iff.mp found
              rw [Piece.filled, found] at braceMem
              exact absurd braceMem (noBrace (other, inserted) (by simp [doneEq]))
          | none =>
              rw [Piece.filled, found] at filledEq
              have skippedNil := skipped_eq_nil_of_placeholder piecePlain.2 filledEq keptSome reads
              subst skippedNil
              rw [List.nil_append] at filledEq
              rw [← filledEq] at reads
              rw [eq_of_placeholder_isPrefix braceFree piecePlain.2 reads]
              exact ⟨rfl, rfl⟩

end Step

/-! ## Filling in all names -/

section Run

variable {pieces : List Piece} {data entries done todo : List (String × String)}

theorem not_mem_of_nodup {name value : String}
    (distinct : ((done ++ (name, value) :: todo).map Prod.fst).Nodup) :
    name ∉ done.map Prod.fst := by
  rw [List.map_append, List.map_cons, List.nodup_middle, List.nodup_cons] at distinct
  exact fun member => distinct.1 (List.mem_append_left _ member)

/-- Where no name is disturbed, filling goes on as it has begun. -/
theorem fillEach_filledIn (done : List (String × String))
    (distinct : ((done ++ todo).map Prod.fst).Nodup)
    (undisturbed : Undisturbed pieces (done ++ todo)) :
    fillEach todo (filledIn done pieces) = filledIn (done ++ todo) pieces := by
  induction todo generalizing done with
  | nil => rw [List.append_nil]; rfl
  | cons entry todo ih =>
      obtain ⟨name, value⟩ := entry
      have step := replaceAll_filledIn value (not_mem_of_nodup distinct)
        (undisturbed done name value todo rfl)
      rw [List.append_cons] at distinct undisturbed ⊢
      rw [← ih _ distinct undisturbed, ← step]
      rfl

theorem fillEach_written (distinct : (entries.map Prod.fst).Nodup)
    (undisturbed : Undisturbed pieces entries) :
    fillEach entries (written pieces) = filledIn entries pieces := by
  rw [← filledIn_nil]
  exact fillEach_filledIn [] distinct undisturbed

theorem lookup_eq_some_iff_mem (distinct : (data.map Prod.fst).Nodup) {name value : String} :
    data.lookup name = some value ↔ (name, value) ∈ data := by
  rw [List.lookup_eq_some_iff]
  constructor
  · rintro ⟨before, after, rfl, -⟩
    simp
  · intro member
    obtain ⟨before, after, rfl⟩ := List.append_of_mem member
    refine ⟨before, after, rfl, ?_⟩
    intro entry entryMem
    simpa using fun same : name = entry.1 =>
      not_mem_of_nodup distinct (List.mem_map.mpr ⟨entry, entryMem, same.symm⟩)

theorem filledIn_of_perm (distinct : (data.map Prod.fst).Nodup) (permuted : entries.Perm data)
    (pieces : List Piece) : filledIn entries pieces = filledIn data pieces := by
  have distinct' := (permuted.map Prod.fst).nodup_iff.mpr distinct
  have sameLookup (name : String) : entries.lookup name = data.lookup name := by
    apply Option.ext
    intro value
    rw [lookup_eq_some_iff_mem distinct', lookup_eq_some_iff_mem distinct, permuted.mem_iff]
  apply List.flatMap_congr
  intro piece _
  cases piece with
  | copied text => rfl
  | hole name => rw [Piece.filled, Piece.filled, sameLookup]

theorem undisturbed_of_noBrace (plain : ∀ piece ∈ pieces, piece.IsPlain)
    (distinct : (entries.map Prod.fst).Nodup)
    (braceFree : ∀ entry ∈ entries, BraceFree entry.1.toList)
    (noBrace : ∀ entry ∈ entries.dropLast, '{' ∉ entry.2.toList) : Undisturbed pieces entries := by
  rintro done name value rest rfl
  apply readsOnlyHoles_of_noBrace plain (not_mem_of_nodup distinct)
    (braceFree (name, value) (by simp))
  intro entry member
  apply noBrace entry
  rw [List.dropLast_append_cons]
  exact List.mem_append_left _ member

theorem orderedData_perm (data : List (String × String)) : (orderedData data).Perm data :=
  stableSort_perm _ data

end Run

/-- Filling a template with values for different names replaces each of its holes by the
value of its name, once and as it is, provided that no name, when its turn comes, finds its
placeholder in the values filled in before it.  This does not depend on the order of the
names, and it is so in every order if no value but the last one has an opening brace.  The
condition is exact: a value that does not start with an opening brace goes in as it is only
if its placeholder can be read nowhere but in the holes. -/
theorem filled_verbatim_while_only_holes_read {pieces : List Piece}
    {data : List (String × String)} (plain : ∀ piece ∈ pieces, piece.IsPlain)
    (distinct : (data.map Prod.fst).Nodup)
    (braceFree : ∀ entry ∈ data, BraceFree entry.1.toList) :
    (Undisturbed pieces (orderedData data) →
      fill (String.ofList (written pieces)) data = String.ofList (filledIn data pieces)) ∧
    (∀ entries, entries.Perm data → Undisturbed pieces entries →
      fillEach entries (written pieces) = filledIn data pieces) ∧
    (∀ entries, entries.Perm data → (∀ entry ∈ entries.dropLast, '{' ∉ entry.2.toList) →
      Undisturbed pieces entries) ∧
    ∀ done name value rest, (done ++ (name, value) :: rest).Perm data →
      Undisturbed pieces done → ∀ first, value.toList.head? = some first → first ≠ '{' →
        (fillEach (done ++ [(name, value)]) (written pieces) =
            filledIn (done ++ [(name, value)]) pieces ↔
          ReadsOnlyHoles done pieces name) := by
  have distinctOf {entries : List (String × String)} (permuted : entries.Perm data) :
      (entries.map Prod.fst).Nodup := (permuted.map Prod.fst).nodup_iff.mpr distinct
  have inEveryOrder : ∀ entries, entries.Perm data → Undisturbed pieces entries →
      fillEach entries (written pieces) = filledIn data pieces := by
    intro entries permuted undisturbed
    rw [fillEach_written (distinctOf permuted) undisturbed,
      filledIn_of_perm distinct permuted]
  refine ⟨?_, inEveryOrder, ?_, ?_⟩
  · intro undisturbed
    rw [← inEveryOrder (orderedData data) (orderedData_perm data) undisturbed, fill,
      String.toList_ofList]
    rfl
  · intro entries permuted
    exact undisturbed_of_noBrace plain (distinctOf permuted)
      fun entry member => braceFree entry (permuted.mem_iff.mp member)
  · intro done name value rest permuted undisturbed first head noBrace
    have entriesDistinct := distinctOf permuted
    have fresh := not_mem_of_nodup entriesDistinct
    have doneDistinct : (done.map Prod.fst).Nodup := by
      rw [List.map_append] at entriesDistinct
      exact entriesDistinct.of_append_left
    have nameFree := braceFree (name, value) (permuted.mem_iff.mp (by simp))
    have filledSoFar : fillEach (done ++ [(name, value)]) (written pieces) =
        replaceAll (placeholder name) value.toList (filledIn done pieces) := by
      rw [← fillEach_written doneDistinct undisturbed, fillEach, List.foldl_append]
      rfl
    rw [filledSoFar]
    exact ⟨readsOnlyHoles_of_replaceAll_eq fresh nameFree head noBrace,
      replaceAll_filledIn value fresh⟩

/-- A template with a name that gets no value. -/
def samplePieces : List Piece := [.hole "a", .copied [' '], .hole "b", .hole "c"]

/-- Values for a sample template, of which the last one in order looks like a
placeholder. -/
def sampleValues : List (String × String) :=
  [("b", String.ofList (placeholder "a")), ("a", "\x7dx")]

theorem sample_filled_verbatim :
    (∀ piece ∈ samplePieces, piece.IsPlain) ∧
      Undisturbed samplePieces (orderedData sampleValues) ∧
      fill (String.ofList (written samplePieces)) sampleValues =
        "\x7dx \x7b\x7ba\x7d\x7d\x7b\x7bc\x7d\x7d" := by
  have plain : ∀ piece ∈ samplePieces, piece.IsPlain := by decide
  have distinct : (sampleValues.map Prod.fst).Nodup := by decide
  have lastLooksSo : ∀ entry ∈ (orderedData sampleValues).dropLast, '{' ∉ entry.2.toList := by
    decide +kernel
  obtain ⟨filledUp, -, undisturbedIf, -⟩ :=
    filled_verbatim_while_only_holes_read plain distinct (by decide)
  have undisturbed := undisturbedIf _ (orderedData_perm sampleValues) lastLooksSo
  exact ⟨plain, undisturbed, filledUp undisturbed⟩

/-- A value that spells the placeholder of a later name is expanded by that name, and
in the opposite order it is not. -/
theorem value_expanded_by_later_name :
    filledIn [("a", String.ofList (placeholder "b")), ("b", "c")] [.hole "a"] =
        placeholder "b" ∧
      fill (String.ofList (written [.hole "a"]))
        [("a", String.ofList (placeholder "b")), ("b", "c")] = "c" ∧
      fillEach [("b", "c"), ("a", String.ofList (placeholder "b"))] (written [.hole "a"]) =
        placeholder "b" := by
  decide +kernel

end Template

end AssertLint
