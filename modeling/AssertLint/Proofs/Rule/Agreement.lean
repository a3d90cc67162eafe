import AssertLint.Proofs.Rule.Finding
import AssertLint.Proofs.Rule.Fixes

/-!
# Assertions on a match that are rewritten alike

An assertion on equality asks which of its arguments is a regular expression, an
assertion on a boolean asks it of the object of the method only.  The two read a
match in different ways, but they rewrite the same matches by `test`, to the same
two arguments, and the order of the arguments of an equality does not matter.
-/

namespace AssertLint

namespace RegexAssertion

open Cursor (contentChildren)

/-- What a call of `test` on a regular expression is about, as an assertion on equality
sees it: the texts of the argument and of the regular expression. -/
def testTexts? (file : File) (expression : Cursor) : Option (String × String) :=
  if file.scopes.isRegex expression then
    (methodCall? file.source expression).bind fun call =>
      if call.method = .test then
        call.argument.map fun argument =>
          (argument.text file.source, call.object.text file.source)
      else
        none
  else
    none

/-- The arguments that edits put in the place of others. -/
def argumentsText (edits : List Edit) : String :=
  ", ".intercalate (edits.map Edit.text)

/-- A name and arguments of an assertion that a match has an outcome: it compares the
match with the outcome, in any order, or it asserts the outcome directly. -/
inductive AssertsOutcome (matching outcome : Cursor) (replacement : Replacement) :
    String → List Cursor → Prop where
  | matchFirst {name : String} {others : List Cursor} (asserts : AssertsEquality name) :
      AssertsOutcome matching outcome replacement name (matching :: outcome :: others)
  | outcomeFirst {name : String} {others : List Cursor} (asserts : AssertsEquality name) :
      AssertsOutcome matching outcome replacement name (outcome :: matching :: others)
  | boolean {name : String} {others : List Cursor} (asserts : AssertsBoolean name replacement) :
      AssertsOutcome matching outcome replacement name (matching :: others)

/-! ## Equality -/

theorem sides?_comm (file : File) (first second : Cursor) :
    sides? file first second = sides? file second first := by
  cases isFirst : file.scopes.isRegex first <;> cases isSecond : file.scopes.isRegex second <;>
    simp [sides?, isFirst, isSecond]

theorem equalityEdits?_of_sides? {file : File} {first second matching outcome : Cursor}
    {replacement : Replacement}
    (sides : sides? file first second =
      if file.scopes.isRegex matching then some (matching, outcome) else none)
    (isOutcome : IsOutcome contentChildren outcome replacement) (others : List Cursor) :
    equalityEdits? file (first :: second :: others) =
      (testTexts? file matching).map fun (text, pattern) =>
        (replacement, [replace first text, replace second pattern]) := by
  simp only [equalityEdits?, sides, testTexts?, Option.bind_eq_bind]
  by_cases isRegex : file.scopes.isRegex matching
  · simp only [isRegex, if_true, Option.bind_some, replacementFor?_of_isOutcome isOutcome,
      Option.map_bind]
    congr 1
    funext call
    by_cases isTest : call.method = .test
    · cases argument : call.argument <;> simp [isTest, argument]
    · simp [isTest]
  · simp [isRegex]

section Tree

variable {source : Source} {tree : Node} {matching outcome : Cursor} {replacement : Replacement}

theorem sides?_of_isOutcome (source : Source) (outcomeLies : Cursor.LiesIn tree outcome)
    (isOutcome : IsOutcome contentChildren outcome replacement) (matching : Cursor) :
    sides? (File.ofTree source tree) matching outcome =
      if (File.ofTree source tree).scopes.isRegex matching then some (matching, outcome)
      else none := by
  have isOther := isRegex_of_isOutcome source outcomeLies isOutcome
  cases isRegex : (ScopeTable.ofTree source tree).isRegex matching <;>
    simp [sides?, isOther, isRegex]

/-! ## A boolean -/

theorem testTexts?_eq_some_iff (lies : Cursor.LiesIn tree matching) {texts : String × String} :
    testTexts? (File.ofTree source tree) matching = some texts ↔
      ∃ pattern text,
        CallsMethod contentChildren contentChildren source matching "test" pattern text ∧
        (ScopeTable.ofTree source tree).isRegex pattern ∧
        (text.text source, pattern.text source) = texts := by
  rw [testTexts?, File.source_ofTree, File.scopes_ofTree]
  constructor
  · intro found
    split at found
    next isRegex =>
      obtain ⟨⟨method, object, argument?⟩, callFound, found⟩ := Option.bind_eq_some_iff.mp found
      split at found
      next isTest =>
        obtain ⟨text, rfl, textsEq⟩ := Option.map_eq_some_iff.mp found
        obtain rfl : method = .test := isTest
        have calls := callsMethod_of_methodCall? callFound
        rw [isRegex_eq_of_callsMethod source lies calls] at isRegex
        exact ⟨object, text, calls, isRegex, textsEq⟩
      next => simp at found
    next => simp at found
  · rintro ⟨pattern, text, calls, isRegex, rfl⟩
    have callFound : methodCall? source matching = some ⟨.test, pattern, some text⟩ :=
      methodCall?_of_callsMethod calls
    rw [← isRegex_eq_of_callsMethod source lies calls] at isRegex
    simp [isRegex, callFound]

/-- The edits of an assertion on a boolean that is a match by `test`. -/
theorem booleanEdits?_of_callsMethod (file : File) {pattern text : Cursor}
    (isTest : CallsMethod contentChildren contentChildren file.source matching "test" pattern text)
    (others : List Cursor) :
    booleanEdits? file (matching :: others) =
      if file.scopes.isRegex pattern then
        some [replace matching (text.text file.source ++ ", " ++ pattern.text file.source)]
      else none := by
  have callFound : methodCall? file.source matching = some ⟨.test, pattern, some text⟩ :=
    methodCall?_of_callsMethod isTest
  simp [booleanEdits?, callFound, MethodCall.textAndPattern?]

theorem booleanEdits?_of_testTexts? (lies : Cursor.LiesIn tree matching) {text pattern : String}
    (found : testTexts? (File.ofTree source tree) matching = some (text, pattern))
    (others : List Cursor) :
    booleanEdits? (File.ofTree source tree) (matching :: others) =
      some [replace matching (text ++ ", " ++ pattern)] := by
  obtain ⟨object, argument, isTest, isRegex, textsEq⟩ := (testTexts?_eq_some_iff lies).mp found
  obtain ⟨rfl, rfl⟩ := Prod.mk.inj textsEq
  rw [booleanEdits?_of_callsMethod _ isTest, if_pos (by simpa using isRegex)]
  rfl

theorem isSome_testTexts?_iff (lies : Cursor.LiesIn tree matching) (others : List Cursor) :
    (testTexts? (File.ofTree source tree) matching).isSome ↔
      (∃ pattern text,
          CallsMethod contentChildren contentChildren source matching "test" pattern text) ∧
        (booleanEdits? (File.ofTree source tree) (matching :: others)).isSome := by
  constructor
  · intro isSome
    obtain ⟨texts, found⟩ := Option.isSome_iff_exists.mp isSome
    obtain ⟨pattern, text, isTest, -⟩ := (testTexts?_eq_some_iff lies).mp found
    exact ⟨⟨pattern, text, isTest⟩, by simp [booleanEdits?_of_testTexts? lies found]⟩
  · rintro ⟨⟨pattern, text, isTest⟩, isSome⟩
    have isRegex : (ScopeTable.ofTree source tree).isRegex pattern := by
      by_contra isOther
      simp [booleanEdits?_of_callsMethod (File.ofTree source tree) isTest, isOther] at isSome
    exact Option.isSome_iff_exists.mpr
      ⟨_, (testTexts?_eq_some_iff lies).mpr ⟨pattern, text, isTest, isRegex, rfl⟩⟩

end Tree

/-! ## The whole assertion -/

/-- The readers of assertions agree on what to do with a match and its outcome.  The
two orders of an equality are rewritten together or not at all, with the same texts.
They are rewritten exactly when the match is one by `test` and the reader of assertions
on a boolean rewrites it too, to the same texts. -/
structure ReadersAgree (file : File) (matching outcome : Cursor) (replacement : Replacement)
    (texts? : Option (String × String)) : Prop where
  matchFirst : ∀ others, equalityEdits? file (matching :: outcome :: others) =
    texts?.map fun (text, pattern) =>
      (replacement, [replace matching text, replace outcome pattern])
  outcomeFirst : ∀ others, equalityEdits? file (outcome :: matching :: others) =
    texts?.map fun (text, pattern) =>
      (replacement, [replace outcome text, replace matching pattern])
  isSome_iff : ∀ others, texts?.isSome ↔
    (∃ pattern text,
        CallsMethod contentChildren contentChildren file.source matching "test" pattern text) ∧
      (booleanEdits? file (matching :: others)).isSome
  boolean : ∀ text pattern, texts? = some (text, pattern) →
    ∀ others, booleanEdits? file (matching :: others) =
      some [replace matching (text ++ ", " ++ pattern)]

theorem ReadersAgree.exists_argumentEdits? {file : File} {matching outcome : Cursor}
    {replacement : Replacement} {text pattern name : String} {arguments : List Cursor}
    (agree : ReadersAgree file matching outcome replacement (some (text, pattern)))
    (asserts : AssertsOutcome matching outcome replacement name arguments) :
    ∃ assertion edits, Assertion.ofName? name = some assertion ∧
      argumentEdits? file assertion arguments = some (replacement, edits) ∧
      argumentsText edits = text ++ ", " ++ pattern := by
  cases asserts with
  | @matchFirst others asserts =>
      exact ⟨.equality, _, Assertion.ofName?_of_assertsEquality asserts,
        agree.matchFirst others, rfl⟩
  | @outcomeFirst others asserts =>
      exact ⟨.equality, _, Assertion.ofName?_of_assertsEquality asserts,
        agree.outcomeFirst others, rfl⟩
  | @boolean others asserts =>
      refine ⟨.boolean replacement, [replace matching (text ++ ", " ++ pattern)],
        Assertion.ofName?_of_assertsBoolean asserts, ?_, rfl⟩
      rw [argumentEdits?, agree.boolean text pattern rfl, Option.map_some]

theorem readersAgree_testTexts? (source : Source) {tree : Node} {matching outcome : Cursor}
    {replacement : Replacement} (lies : Cursor.LiesIn tree matching)
    (outcomeLies : Cursor.LiesIn tree outcome)
    (isOutcome : IsOutcome contentChildren outcome replacement) :
    ReadersAgree (File.ofTree source tree) matching outcome replacement
      (testTexts? (File.ofTree source tree) matching) := by
  have sides := sides?_of_isOutcome source outcomeLies isOutcome matching
  constructor
  case matchFirst => exact equalityEdits?_of_sides? sides isOutcome
  case outcomeFirst =>
    rw [sides?_comm] at sides
    exact equalityEdits?_of_sides? sides isOutcome
  case isSome_iff => exact isSome_testTexts?_iff lies
  case boolean => exact fun text pattern => booleanEdits?_of_testTexts? lies

/-- The readers of assertions agree on every expression and every boolean literal, and so
all calls that assert the outcome of one match are given the same name and the same
arguments. -/
theorem assertions_rewritten_alike (source : Source) {tree : Node} {matching outcome : Cursor}
    {replacement : Replacement} (matchingIn : matching ∈ tree.cursors)
    (outcomeIn : outcome ∈ tree.cursors)
    (isOutcome : IsOutcome contentChildren outcome replacement) :
    ReadersAgree (File.ofTree source tree) matching outcome replacement
        (testTexts? (File.ofTree source tree) matching) ∧
      ∀ text pattern, testTexts? (File.ofTree source tree) matching = some (text, pattern) →
        ∀ call name arguments, IsReadAs contentChildren source call name arguments →
          AssertsOutcome matching outcome replacement name arguments →
            ∃ callee property edits,
              call.field? .callee = some callee ∧ callee.field? .property = some property ∧
                replacement? (File.ofTree source tree) call =
                  some (replacement, replace property replacement.name :: edits) ∧
                argumentsText edits = text ++ ", " ++ pattern := by
  have agree := readersAgree_testTexts? source (Cursor.mem_cursors_iff.mp matchingIn)
    (Cursor.mem_cursors_iff.mp outcomeIn) isOutcome
  refine ⟨agree, ?_⟩
  intro text pattern found call name arguments isReadAs asserts
  rw [found] at agree
  obtain ⟨assertion, edits, named, editsFound, textEq⟩ := agree.exists_argumentEdits? asserts
  obtain ⟨callee, property, calleeFound, propertyFound, replacementEq⟩ :=
    exists_replacement?_eq (File.ofTree source tree) isReadAs named
  refine ⟨callee, property, edits, calleeFound, propertyFound, ?_, textEq⟩
  rw [replacementEq, editsFound, Option.map_some]

/-- The node of the sample with a given range. -/
def sampleNode (span : Span) : Cursor :=
  ((sampleParse sampleSource).cursors.find? (·.span = span)).getD
    (Cursor.root (sampleParse sampleSource))

theorem sample_rewritten_alike :
    ReadersAgree (File.ofTree sampleSource (sampleParse sampleSource))
        (sampleNode ⟨30, 41⟩) (sampleNode ⟨42, 46⟩) .regex (some ("s", "/b/")) ∧
      ∃ property edits,
        replacement? (File.ofTree sampleSource (sampleParse sampleSource))
            (sampleNode ⟨25, 47⟩) =
          some (.regex, replace property "regex" :: edits) ∧
        argumentsText edits = "s, /b/" := by
  have matchingIn : sampleNode ⟨30, 41⟩ ∈ (sampleParse sampleSource).cursors :=
    List.mem_of_find?_eq_some (p := (·.span = ⟨30, 41⟩)) rfl
  have outcomeIn : sampleNode ⟨42, 46⟩ ∈ (sampleParse sampleSource).cursors :=
    List.mem_of_find?_eq_some (p := (·.span = ⟨42, 46⟩)) rfl
  have isOutcome : IsOutcome contentChildren (sampleNode ⟨42, 46⟩) .regex :=
    .true .refl (by decide +kernel)
  have texts : testTexts? (File.ofTree sampleSource (sampleParse sampleSource))
      (sampleNode ⟨30, 41⟩) = some ("s", "/b/") := by decide +kernel
  have isReadAs : IsReadAs contentChildren sampleSource (sampleNode ⟨25, 47⟩) "is"
      [sampleNode ⟨30, 41⟩, sampleNode ⟨42, 46⟩] := by
    refine ⟨⟨_, _, _, rfl, rfl, rfl, Relation.ReflTransGen.single rfl, rfl, rfl⟩,
      ⟨_, rfl, rfl, rfl⟩, by decide +kernel⟩
  obtain ⟨agree, calls⟩ :=
    assertions_rewritten_alike sampleSource matchingIn outcomeIn isOutcome
  obtain ⟨callee, property, edits, -, -, replacementEq, textEq⟩ :=
    calls "s" "/b/" texts (sampleNode ⟨25, 47⟩) "is" _ isReadAs (.matchFirst .is)
  rw [texts] at agree
  exact ⟨agree, property, edits, replacementEq, textEq⟩

end RegexAssertion

end AssertLint
