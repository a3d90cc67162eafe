import AssertLint.Text.Source

/-!
# Cutting texts at byte offsets

An offset can be cut at exactly when it is the length in bytes of a front part
of the text.  This file turns the functions that cut by offset into statements
about concatenations, so that everything further on can speak of the parts of a
text and never of the characters that an offset counts.  At the end it shows that
these offsets are the positions between characters of the UTF-8 encoding.
-/

namespace AssertLint

namespace Source

@[simp]
theorem byteLength_nil : byteLength [] = 0 :=
  rfl

@[simp]
theorem byteLength_cons (character : Char) (rest : Source) :
    byteLength (character :: rest) = character.utf8Size + byteLength rest :=
  rfl

@[simp]
theorem byteLength_append (front back : Source) :
    byteLength (front ++ back) = byteLength front + byteLength back := by
  induction front with
  | nil => simp
  | cons character front ih =>
      simp only [List.cons_append, byteLength_cons, ih]
      omega

theorem byteLength_eq_zero_iff {source : Source} :
    source.byteLength = 0 ↔ source = [] := by
  cases source with
  | nil => simp
  | cons character rest =>
      have positive := character.utf8Size_pos
      simp only [byteLength_cons, reduceCtorEq, iff_false]
      omega

/-- Cutting at the length of a front part leaves the rest. -/
theorem dropBytes?_append (front back : Source) :
    (front ++ back).dropBytes? front.byteLength = some back := by
  induction front with
  | nil => simp [dropBytes?]
  | cons character front ih =>
      have positive := character.utf8Size_pos
      obtain ⟨before, lengthEq⟩ :
          ∃ before, byteLength (character :: front) = before + 1 :=
        ⟨character.utf8Size + byteLength front - 1, by simp only [byteLength_cons]; omega⟩
      rw [lengthEq]
      rw [byteLength_cons] at lengthEq
      simp only [List.cons_append, dropBytes?]
      rw [if_pos (by omega), show before + 1 - character.utf8Size = byteLength front by omega, ih]

theorem dropBytes?_eq_some {source rest : Source} {offset : Nat}
    (dropped : source.dropBytes? offset = some rest) :
    ∃ front, source = front ++ rest ∧ byteLength front = offset := by
  induction source generalizing offset with
  | nil =>
      cases offset with
      | zero => exact ⟨[], by simpa [dropBytes?] using dropped, rfl⟩
      | succ offset => simp [dropBytes?] at dropped
  | cons character source ih =>
      cases offset with
      | zero => exact ⟨[], by simpa [dropBytes?] using dropped, rfl⟩
      | succ offset =>
          simp only [dropBytes?] at dropped
          split at dropped
          · obtain ⟨front, whole, lengthEq⟩ := ih dropped
            refine ⟨character :: front, by simp [whole], ?_⟩
            rw [byteLength_cons, lengthEq]
            omega
          · simp at dropped

theorem dropBytes?_eq_some_iff {source rest : Source} {offset : Nat} :
    source.dropBytes? offset = some rest ↔
      ∃ front, source = front ++ rest ∧ byteLength front = offset := by
  constructor
  · exact dropBytes?_eq_some
  · rintro ⟨front, rfl, rfl⟩
    exact dropBytes?_append front rest

/-- The characters up to the length of a front part are that part. -/
theorem takeBytes?_append (front back : Source) :
    (front ++ back).takeBytes? front.byteLength = some front := by
  induction front with
  | nil => simp [takeBytes?]
  | cons character front ih =>
      have positive := character.utf8Size_pos
      obtain ⟨before, lengthEq⟩ :
          ∃ before, byteLength (character :: front) = before + 1 :=
        ⟨character.utf8Size + byteLength front - 1, by simp only [byteLength_cons]; omega⟩
      rw [lengthEq]
      rw [byteLength_cons] at lengthEq
      simp only [List.cons_append, takeBytes?]
      rw [if_pos (by omega), show before + 1 - character.utf8Size = byteLength front by omega, ih]
      rfl

/-- An offset at which a text can be cut lies within a front part of the text
that is at least as long: the part can be cut there too. -/
theorem exists_append_of_byteLength_le {front rest part back : Source}
    (whole : front ++ rest = part ++ back)
    (shorter : byteLength front ≤ byteLength part) :
    ∃ between, part = front ++ between ∧ rest = between ++ back := by
  rcases List.append_eq_append_iff.mp whole with
    ⟨between, partEq, restEq⟩ | ⟨between, frontEq, backEq⟩
  · exact ⟨between, partEq, restEq⟩
  · have empty : between = [] := by
      apply byteLength_eq_zero_iff.mp
      rw [frontEq, byteLength_append] at shorter
      omega
    subst empty
    exact ⟨[], by simpa using frontEq.symm, by simpa using backEq.symm⟩

/-- A range can be cut out of a text exactly when the text is what stands before
the range, what stands in it and what stands behind it. -/
theorem isValid_iff {source : Source} {span : Span} :
    source.isValid span = true ↔
      ∃ before inside after, source = before ++ (inside ++ after) ∧
        byteLength before = span.start ∧
        byteLength before + byteLength inside = span.stop := by
  simp only [isValid, isBoundary, Bool.and_eq_true, decide_eq_true_eq, Option.isSome_iff_exists,
    dropBytes?_eq_some_iff]
  constructor
  · rintro ⟨⟨⟨ordered, -⟩, ⟨rest, before, wholeStart, startEq⟩⟩,
      ⟨after, front, wholeStop, stopEq⟩⟩
    obtain ⟨inside, rfl, restEq⟩ :=
      exists_append_of_byteLength_le (wholeStart.symm.trans wholeStop) (by omega)
    refine ⟨before, inside, after, by rw [wholeStart, restEq], startEq, ?_⟩
    rw [← stopEq, byteLength_append]
  · rintro ⟨before, inside, after, rfl, startEq, stopEq⟩
    refine ⟨⟨⟨by omega, ?_⟩, ⟨inside ++ after, before, rfl, startEq⟩⟩,
      ⟨after, before ++ inside, by simp, by rw [byteLength_append, stopEq]⟩⟩
    simp only [byteLength_append]
    omega

theorem isValid_whole (source : Source) :
    source.isValid ⟨0, source.byteLength⟩ = true :=
  isValid_iff.mpr ⟨[], source, [], by simp, rfl, by simp⟩

theorem start_le_stop_of_isValid {source : Source} {span : Span}
    (valid : source.isValid span = true) : span.start ≤ span.stop := by
  obtain ⟨before, inside, after, -, startEq, stopEq⟩ := isValid_iff.mp valid
  omega

theorem stop_le_byteLength_of_isValid {source : Source} {span : Span}
    (valid : source.isValid span = true) : span.stop ≤ source.byteLength := by
  simp only [isValid, Bool.and_eq_true, decide_eq_true_eq] at valid
  exact valid.1.1.2

/-- Two ranges that can be cut out span a range that can be cut out. -/
theorem isValid_hull {source : Source} {first last : Span}
    (firstValid : source.isValid first = true) (lastValid : source.isValid last = true)
    (ordered : first.start ≤ last.stop) :
    source.isValid ⟨first.start, last.stop⟩ = true := by
  obtain ⟨before, inside, after, whole, startEq, -⟩ := isValid_iff.mp firstValid
  obtain ⟨before', inside', after', whole', startEq', stopEq'⟩ := isValid_iff.mp lastValid
  have whole'' : before ++ (inside ++ after) = (before' ++ inside') ++ after' := by
    rw [← whole, whole', List.append_assoc]
  obtain ⟨between, frontEq, restEq⟩ :=
    exists_append_of_byteLength_le whole'' (by rw [byteLength_append]; omega)
  refine isValid_iff.mpr ⟨before, between, after', by rw [whole, restEq], startEq, ?_⟩
  have lengthEq := congrArg byteLength frontEq
  simp only [byteLength_append] at lengthEq
  change byteLength before + byteLength between = last.stop
  omega

/-- From a boundary on, the text up to a range that can be cut out can be cut out. -/
theorem isValid_between {source : Source} {low : Nat} {span : Span}
    (boundary : source.isBoundary low = true) (valid : source.isValid span = true)
    (ordered : low ≤ span.start) : source.isValid ⟨low, span.start⟩ = true := by
  have spanOrdered := start_le_stop_of_isValid valid
  simp only [isValid, Bool.and_eq_true, decide_eq_true_eq] at valid ⊢
  exact ⟨⟨⟨ordered, by omega⟩, boundary⟩, valid.1.2⟩

theorem isBoundary_zero (source : Source) : source.isBoundary 0 = true := by
  simp [isBoundary, dropBytes?]

theorem isBoundary_stop_of_isValid {source : Source} {span : Span}
    (valid : source.isValid span = true) : source.isBoundary span.stop = true := by
  simp only [isValid, Bool.and_eq_true] at valid
  exact valid.2

theorem dropBytes?_of_isBoundary {source : Source} {offset : Nat}
    (boundary : source.isBoundary offset = true) :
    source.dropBytes? offset = some (source.sliceFrom offset) := by
  obtain ⟨rest, dropped⟩ := Option.isSome_iff_exists.mp boundary
  rw [sliceFrom, dropped, Option.getD_some]

/-- What is cut out of a text is what stands between two of its parts. -/
theorem slice?_append (before inside after : Source) :
    (before ++ (inside ++ after)).slice?
        ⟨byteLength before, byteLength before + byteLength inside⟩ =
      some inside := by
  rw [slice?]
  simp only [Nat.le_add_right, if_true, dropBytes?_append, Option.bind_some,
    Nat.add_sub_cancel_left, takeBytes?_append]

theorem slice_append (before inside after : Source) :
    (before ++ (inside ++ after)).slice
        ⟨byteLength before, byteLength before + byteLength inside⟩ =
      inside := by
  rw [slice, slice?_append, Option.getD_some]

/-- What a range cuts out of a text whose parts are known. -/
theorem slice_eq_of_cut {source before inside after : Source} {span : Span}
    (whole : source = before ++ (inside ++ after)) (startEq : byteLength before = span.start)
    (stopEq : byteLength before + byteLength inside = span.stop) :
    source.slice span = inside := by
  cases span with
  | mk start stop =>
      subst whole startEq stopEq
      exact slice_append before inside after

/-- A range that can be cut out is cut out. -/
theorem slice?_of_isValid {source : Source} {span : Span} (valid : source.isValid span = true) :
    source.slice? span = some (source.slice span) := by
  obtain ⟨before, inside, after, rfl, startEq, stopEq⟩ := isValid_iff.mp valid
  cases span with
  | mk start stop =>
      subst startEq stopEq
      rw [slice, slice?_append, Option.getD_some]

theorem byteLength_slice {source : Source} {span : Span} (valid : source.isValid span = true) :
    span.start + byteLength (source.slice span) = span.stop := by
  obtain ⟨before, inside, after, whole, startEq, stopEq⟩ := isValid_iff.mp valid
  rw [slice_eq_of_cut whole startEq stopEq]
  omega

theorem start_lt_stop_of_text_ne {source : Source} {span : Span}
    (valid : source.isValid span = true) (written : source.text span ≠ "") :
    span.start < span.stop := by
  have length := byteLength_slice valid
  have nonempty : byteLength (source.slice span) ≠ 0 := by
    intro zero
    rw [byteLength_eq_zero_iff] at zero
    exact written (by rw [text, zero])
  omega

/-- What a range holds stands in what a range around it holds. -/
theorem slice_eq_append_of_within {source : Source} {inner outer : Span}
    (innerValid : source.isValid inner = true) (outerValid : source.isValid outer = true)
    (startLe : outer.start ≤ inner.start) (stopLe : inner.stop ≤ outer.stop) :
    ∃ front back, source.slice outer = front ++ (source.slice inner ++ back) ∧
      outer.start + byteLength front = inner.start := by
  obtain ⟨before, inside, after, whole, beforeEq, insideEq⟩ := isValid_iff.mp innerValid
  obtain ⟨before', inside', after', whole', beforeEq', insideEq'⟩ := isValid_iff.mp outerValid
  rw [slice_eq_of_cut whole beforeEq insideEq, slice_eq_of_cut whole' beforeEq' insideEq']
  obtain ⟨front, rfl, frontRest⟩ :=
    exists_append_of_byteLength_le (whole'.symm.trans whole) (by omega)
  have split : (front ++ inside) ++ after = inside' ++ after' := by
    rw [frontRest, List.append_assoc]
  rw [byteLength_append] at beforeEq insideEq
  obtain ⟨back, insideEq'', -⟩ :=
    exists_append_of_byteLength_le split (by rw [byteLength_append]; omega)
  exact ⟨front, back, by rw [insideEq'', List.append_assoc], by omega⟩

/-- A range that starts together with a longer one holds its first characters. -/
theorem head?_slice_of_start_eq {source : Source} {inner outer : Span} {character : Char}
    (innerValid : source.isValid inner = true) (outerValid : source.isValid outer = true)
    (startEq : inner.start = outer.start) (stopLe : inner.stop ≤ outer.stop)
    (head : (source.slice inner).head? = some character) :
    (source.slice outer).head? = some character := by
  obtain ⟨front, back, split, frontEq⟩ :=
    slice_eq_append_of_within innerValid outerValid (Nat.le_of_eq startEq.symm) stopLe
  obtain rfl : front = [] := byteLength_eq_zero_iff.mp (by omega)
  rw [split, List.nil_append, List.head?_append, head, Option.some_or]

theorem sliceFrom_append (front back : Source) :
    (front ++ back).sliceFrom (byteLength front) = back := by
  rw [sliceFrom, dropBytes?_append, Option.getD_some]

/-- From a boundary on, the text can be cut to its end. -/
theorem isValid_toEnd {source : Source} {offset : Nat}
    (boundary : source.isBoundary offset = true) :
    source.isValid ⟨offset, source.byteLength⟩ = true := by
  obtain ⟨rest, dropped⟩ := Option.isSome_iff_exists.mp boundary
  obtain ⟨front, rfl, rfl⟩ := dropBytes?_eq_some dropped
  exact isValid_iff.mpr ⟨front, rest, [], by simp, rfl, by simp⟩

theorem slice_toEnd {source : Source} {offset : Nat} (boundary : source.isBoundary offset = true) :
    source.slice ⟨offset, source.byteLength⟩ = source.sliceFrom offset := by
  obtain ⟨rest, dropped⟩ := Option.isSome_iff_exists.mp boundary
  obtain ⟨front, rfl, rfl⟩ := dropBytes?_eq_some dropped
  rw [sliceFrom_append]
  have whole : front ++ rest = front ++ (rest ++ []) := by rw [List.append_nil]
  exact slice_eq_of_cut whole rfl (byteLength_append front rest).symm

/-- Nothing stands between an offset and itself. -/
@[simp]
theorem slice_self (source : Source) (offset : Nat) :
    source.slice ⟨offset, offset⟩ = [] := by
  rw [slice, slice?]
  cases source.dropBytes? offset with
  | none => simp
  | some rest => cases rest <;> simp [takeBytes?]

theorem utf8ByteSize_ofList (source : Source) :
    (String.ofList source).utf8ByteSize = source.byteLength := by
  induction source with
  | nil => rfl
  | cons character rest ih =>
      rw [String.ofList_cons, String.utf8ByteSize_append, String.utf8ByteSize_singleton, ih,
        byteLength_cons]

/-- The offsets at which a text can be cut are the positions between its characters in
UTF-8. -/
theorem isBoundary_iff {source : Source} {offset : Nat} :
    source.isBoundary offset = true ↔
      (⟨offset⟩ : String.Pos.Raw).IsValid (String.ofList source) := by
  rw [isBoundary, Option.isSome_iff_exists, String.Pos.Raw.isValid_iff_exists_append]
  simp only [dropBytes?_eq_some_iff]
  constructor
  · rintro ⟨rest, front, rfl, rfl⟩
    refine ⟨String.ofList front, String.ofList rest, String.ofList_append, ?_⟩
    rw [← utf8ByteSize_ofList]
    rfl
  · rintro ⟨front, rest, whole, offsetEq⟩
    refine ⟨rest.toList, front.toList, ?_, ?_⟩
    · rw [← String.toList_append, ← whole, String.toList_ofList]
    · rw [← utf8ByteSize_ofList, String.ofList_toList]
      exact (congrArg String.Pos.Raw.byteIdx offsetEq).symm

/-- A range that is not inverted, ends inside of the text and cuts no character of its
UTF-8 encoding apart. -/
structure Fits (source : Source) (span : Span) : Prop where
  ordered : span.start ≤ span.stop
  inside : span.stop ≤ (String.ofList source).utf8ByteSize
  start_boundary : (⟨span.start⟩ : String.Pos.Raw).IsValid (String.ofList source)
  stop_boundary : (⟨span.stop⟩ : String.Pos.Raw).IsValid (String.ofList source)

theorem isValid_iff_fits {source : Source} {span : Span} :
    source.isValid span = true ↔ source.Fits span := by
  simp only [isValid, Bool.and_eq_true, decide_eq_true_eq, isBoundary_iff,
    ← utf8ByteSize_ofList]
  constructor
  · rintro ⟨⟨⟨ordered, inside⟩, start⟩, stop⟩
    exact ⟨ordered, inside, start, stop⟩
  · rintro ⟨ordered, inside, start, stop⟩
    exact ⟨⟨⟨ordered, inside⟩, start⟩, stop⟩

end Source

end AssertLint
