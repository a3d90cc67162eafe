import AssertLint.Proofs.Value.Reading
import AssertLint.Rule.RegexAssertion

/-!
# The shapes that the rule on regular expressions replaces

The rule decides with a chain of partial functions whether a call is one of the
assertions that it replaces.  This file states the shapes of those assertions as
relations on nodes and proves that the functions find nothing else.

What is in parentheses and what is an argument can be taken in two ways: as the parts
of an expression, which are no asides, or as the contents that the rule reads.  The
relations leave the choice open.  Of a call that is replaced the two differ only in the
arguments of the method.
-/

namespace AssertLint

open StateTransition

namespace Cursor

/-- A call has these arguments, for a choice of the parts of a list. -/
def HasArguments (parts : Cursor → List Cursor) (call : Cursor) (arguments : List Cursor) : Prop :=
  ∃ list, call.field? .arguments = some list ∧ list.kind = .arguments ∧ parts list = arguments

theorem callArguments?_eq_some_iff {call : Cursor} {arguments : List Cursor} :
    call.callArguments? = some arguments ↔ call.HasArguments contentChildren arguments := by
  rw [callArguments?, Option.bind_eq_some_iff]
  constructor
  · rintro ⟨list, found, read⟩
    split at read
    · exact ⟨list, found, ‹_›, Option.some.inj read⟩
    · simp at read
  · rintro ⟨list, found, isList, rfl⟩
    exact ⟨list, found, if_pos isList⟩

/-- Arguments that are read first and are no asides come first. -/
theorem HasArguments.exists_main {call : Cursor} {front others : List Cursor}
    (read : call.HasArguments contentChildren (front ++ others))
    (noAside : ∀ argument ∈ front, argument.kind.isAside = false) :
    ∃ others', call.HasArguments mainChildren (front ++ others') := by
  obtain ⟨list, listFound, isList, contents⟩ := read
  refine ⟨others.filter fun child => !child.kind.isAside, list, listFound, isList, ?_⟩
  rw [mainChildren_eq, contents, List.filter_append, List.filter_eq_self.mpr]
  intro argument member
  simp [noAside argument member]

theorem propertyName?_eq_some_iff {cursor : Cursor} {source : Source} {name : String} :
    cursor.propertyName? source = some name ↔
      cursor.kind = .memberExpression ∧
        ∃ property, cursor.field? .property = some property ∧
          property.kind = .propertyIdentifier ∧ property.text source = name := by
  rw [propertyName?]
  split
  · rename_i isMember
    rw [Option.bind_eq_some_iff]
    constructor
    · rintro ⟨property, found, read⟩
      split at read
      · exact ⟨isMember, property, found, ‹_›, Option.some.inj read⟩
      · simp at read
    · rintro ⟨-, property, found, isName, rfl⟩
      exact ⟨property, found, if_pos isName⟩
  · rename_i isOther
    simp [isOther]

end Cursor

namespace RegexAssertion

open Cursor (contentChildren inParentheses? mainChildren)

/-- A call `object.name(argument, …)` of a property that is neither computed nor
private, with at least one argument and nothing spread among them. -/
structure IsMethodCall (parts : Cursor → List Cursor) (source : Source) (call : Cursor)
    (name : String) (object argument : Cursor) : Prop where
  isCall : call.kind = .callExpression
  callee : ∃ callee property,
    call.field? .callee = some callee ∧
      callee.kind = .memberExpression ∧
      callee.field? .property = some property ∧
      property.kind = .propertyIdentifier ∧
      property.text source = name ∧
      callee.field? .object = some object
  arguments : ∃ others, call.HasArguments parts (argument :: others) ∧
    ∀ entry ∈ argument :: others, entry.kind ≠ .spreadElement

/-- An expression is such a call, up to parentheses. -/
def CallsMethod (inside parts : Cursor → List Cursor) (source : Source) (expression : Cursor)
    (name : String) (object argument : Cursor) : Prop :=
  ∃ call, Reaches (inParentheses? inside) expression call ∧
    IsMethodCall parts source call name object argument

/-- An expression matches a text against a regular expression: the method `test`
is one of the expression, `match` and `search` are methods of the text. -/
def IsMatch (inside parts : Cursor → List Cursor) (source : Source)
    (expression text pattern : Cursor) : Prop :=
  CallsMethod inside parts source expression "test" pattern text ∨
    CallsMethod inside parts source expression "match" text pattern ∨
    CallsMethod inside parts source expression "search" text pattern

/-- The assertion of a boolean that a name stands for has this replacement. -/
inductive AssertsBoolean : String → Replacement → Prop where
  | true : AssertsBoolean "true" .regex
  | truthy : AssertsBoolean "truthy" .regex
  | false : AssertsBoolean "false" .notRegex
  | falsy : AssertsBoolean "falsy" .notRegex

/-- The names of the assertions of equality. -/
inductive AssertsEquality : String → Prop where
  | is : AssertsEquality "is"
  | deepEqual : AssertsEquality "deepEqual"

/-- An expression is, up to parentheses, the literal that goes with a
replacement. -/
inductive IsOutcome (inside : Cursor → List Cursor) (expression : Cursor) : Replacement → Prop where
  | true {literal : Cursor} (leads : Reaches (inParentheses? inside) expression literal)
      (isTrue : literal.kind = .trueLiteral) : IsOutcome inside expression .regex
  | false {literal : Cursor} (leads : Reaches (inParentheses? inside) expression literal)
      (isFalse : literal.kind = .falseLiteral) : IsOutcome inside expression .notRegex

/-- Of two expressions one is a match by `test` and the other one the literal that goes
with a replacement. -/
def ComparesMatch (inside parts : Cursor → List Cursor) (source : Source)
    (first second text pattern : Cursor) (replacement : Replacement) : Prop :=
  CallsMethod inside parts source first "test" pattern text ∧ IsOutcome inside second replacement ∨
    CallsMethod inside parts source second "test" pattern text ∧ IsOutcome inside first replacement

/-- The edits that rewrite a call of an assertion.  The name of the assertion is
replaced; of an assertion of a boolean, the first argument is replaced by the
text and the regular expression, and of an assertion of equality, the first
argument by the text and the second by the regular expression, whichever of
them holds the match.  The argument of the method is the one that the rule reads. -/
inductive Rewrites (source : Source) (call : Cursor) : List Edit → Prop where
  | boolean {callee property first text pattern : Cursor} {others : List Cursor}
      {replacement : Replacement}
      (calleeFound : call.field? .callee = some callee)
      (propertyFound : callee.field? .property = some property)
      (asserts : AssertsBoolean (property.text source) replacement)
      (arguments : call.HasArguments mainChildren (first :: others))
      (isMatch : IsMatch mainChildren contentChildren source first text pattern) :
      Rewrites source call
        [⟨property.span, replacement.name⟩,
          ⟨first.span, text.text source ++ ", " ++ pattern.text source⟩]
  | equality {callee property first second text pattern : Cursor} {others : List Cursor}
      {replacement : Replacement}
      (calleeFound : call.field? .callee = some callee)
      (propertyFound : callee.field? .property = some property)
      (asserts : AssertsEquality (property.text source))
      (arguments : call.HasArguments mainChildren (first :: second :: others))
      (compares : ComparesMatch mainChildren contentChildren source first second
        text pattern replacement) :
      Rewrites source call
        [⟨property.span, replacement.name⟩, ⟨first.span, text.text source⟩,
          ⟨second.span, pattern.text source⟩]

/-! ## Parentheses as they are read -/

theorem isAside_eq_false_of_reaches {inside : Cursor → List Cursor} {expression last : Cursor}
    (leads : Reaches (inParentheses? inside) expression last)
    (isPart : last.kind.isAside = false) : expression.kind.isAside = false := by
  rcases leads.cases_head with rfl | ⟨following, step, -⟩
  · exact isPart
  · by_cases isParenthesized : expression.kind = .parenthesizedExpression
    · rw [isParenthesized]
      rfl
    · simp [inParentheses?, isParenthesized] at step

section Parentheses

variable {inside parts : Cursor → List Cursor} {source : Source}
  {expression object argument : Cursor} {name : String} {replacement : Replacement}

theorem CallsMethod.isAside_eq_false
    (calls : CallsMethod inside parts source expression name object argument) :
    expression.kind.isAside = false := by
  obtain ⟨call, leads, isMethodCall⟩ := calls
  exact isAside_eq_false_of_reaches leads (by rw [isMethodCall.isCall]; rfl)

/-- A call of a method is read past parentheses unless an aside obscures it. -/
theorem callsMethod_contents_iff :
    CallsMethod contentChildren parts source expression name object argument ↔
      CallsMethod mainChildren parts source expression name object argument ∧
        ¬ expression.IsObscured (inParentheses? mainChildren) := by
  have reached {call : Cursor} (isCall : call.kind = .callExpression) :
      Reaches Cursor.parenthesizedContent? expression call ↔ _ :=
    Cursor.reaches_parenthesizedContent?_iff (by rw [isCall]; rfl) (by simp [isCall])
  constructor
  · rintro ⟨call, leads, isMethodCall⟩
    obtain ⟨mainLeads, clear⟩ := (reached isMethodCall.isCall).mp leads
    exact ⟨⟨call, mainLeads, isMethodCall⟩, clear⟩
  · rintro ⟨⟨call, leads, isMethodCall⟩, clear⟩
    exact ⟨call, (reached isMethodCall.isCall).mpr ⟨leads, clear⟩, isMethodCall⟩

theorem IsOutcome.exists_literal (isOutcome : IsOutcome inside expression replacement) :
    ∃ literal, Reaches (inParentheses? inside) expression literal ∧
      literal.kind ∈ [Kind.trueLiteral, .falseLiteral] := by
  cases isOutcome with
  | true leads isTrue => exact ⟨_, leads, by simp [isTrue]⟩
  | false leads isFalse => exact ⟨_, leads, by simp [isFalse]⟩

theorem isAside_eq_false_of_isOutcome
    (isOutcome : IsOutcome inside expression replacement) :
    expression.kind.isAside = false := by
  obtain ⟨literal, leads, isLiteral⟩ := isOutcome.exists_literal
  simp only [List.mem_cons, List.not_mem_nil, or_false] at isLiteral
  rcases isLiteral with isTrue | isFalse
  · exact isAside_eq_false_of_reaches leads (by rw [isTrue]; rfl)
  · exact isAside_eq_false_of_reaches leads (by rw [isFalse]; rfl)

/-- A literal is read past parentheses unless an aside obscures it. -/
theorem isOutcome_contents_iff :
    IsOutcome contentChildren expression replacement ↔
      IsOutcome mainChildren expression replacement ∧
        ¬ expression.IsObscured (inParentheses? mainChildren) := by
  have reached {literal : Cursor} (isPart : literal.kind.isAside = false)
      (isBare : literal.kind ≠ .parenthesizedExpression) :
      Reaches Cursor.parenthesizedContent? expression literal ↔ _ :=
    Cursor.reaches_parenthesizedContent?_iff isPart isBare
  constructor
  · rintro (⟨leads, isTrue⟩ | ⟨leads, isFalse⟩)
    · obtain ⟨mainLeads, clear⟩ := (reached (by rw [isTrue]; rfl) (by simp [isTrue])).mp leads
      exact ⟨.true mainLeads isTrue, clear⟩
    · obtain ⟨mainLeads, clear⟩ := (reached (by rw [isFalse]; rfl) (by simp [isFalse])).mp leads
      exact ⟨.false mainLeads isFalse, clear⟩
  · rintro ⟨⟨leads, isTrue⟩ | ⟨leads, isFalse⟩, clear⟩
    · exact .true ((reached (by rw [isTrue]; rfl) (by simp [isTrue])).mpr ⟨leads, clear⟩) isTrue
    · exact .false ((reached (by rw [isFalse]; rfl) (by simp [isFalse])).mpr ⟨leads, clear⟩) isFalse

theorem IsMatch.isAside_eq_false {text pattern : Cursor}
    (isMatch : IsMatch inside parts source expression text pattern) :
    expression.kind.isAside = false := by
  rcases isMatch with isTest | isFind | isSearch
  · exact isTest.isAside_eq_false
  · exact isFind.isAside_eq_false
  · exact isSearch.isAside_eq_false

theorem isMatch_contents_iff {text pattern : Cursor} :
    IsMatch contentChildren parts source expression text pattern ↔
      IsMatch mainChildren parts source expression text pattern ∧
        ¬ expression.IsObscured (inParentheses? mainChildren) := by
  simp only [IsMatch, callsMethod_contents_iff, or_and_right]

theorem ComparesMatch.isAside_eq_false {first second text pattern : Cursor}
    (compares : ComparesMatch inside parts source first second text pattern replacement) :
    first.kind.isAside = false ∧ second.kind.isAside = false := by
  rcases compares with ⟨isTest, isOutcome⟩ | ⟨isTest, isOutcome⟩
  · exact ⟨isTest.isAside_eq_false, isAside_eq_false_of_isOutcome isOutcome⟩
  · exact ⟨isAside_eq_false_of_isOutcome isOutcome, isTest.isAside_eq_false⟩

theorem comparesMatch_contents_iff {first second text pattern : Cursor} :
    ComparesMatch contentChildren parts source first second text pattern replacement ↔
      ComparesMatch mainChildren parts source first second text pattern replacement ∧
        ¬ first.IsObscured (inParentheses? mainChildren) ∧
        ¬ second.IsObscured (inParentheses? mainChildren) := by
  simp only [ComparesMatch, callsMethod_contents_iff, isOutcome_contents_iff]
  tauto

end Parentheses

/-! ## What the functions find -/

/-- The name of a method. -/
def Method.name : Method → String
  | test => "test"
  | find => "match"
  | search => "search"

/-- A match is a call of one of the methods. -/
theorem IsMatch.exists_callsMethod {inside parts : Cursor → List Cursor} {source : Source}
    {expression text pattern : Cursor}
    (isMatch : IsMatch inside parts source expression text pattern) :
    ∃ (method : Method) (object argument : Cursor),
      CallsMethod inside parts source expression method.name object argument ∧
        (object = pattern ∧ argument = text ∨ object = text ∧ argument = pattern) := by
  rcases isMatch with isTest | isFind | isSearch
  · exact ⟨.test, pattern, text, isTest, Or.inl ⟨rfl, rfl⟩⟩
  · exact ⟨.find, text, pattern, isFind, Or.inr ⟨rfl, rfl⟩⟩
  · exact ⟨.search, text, pattern, isSearch, Or.inr ⟨rfl, rfl⟩⟩

theorem Method.ofName?_eq_some {name : String} {method : Method}
    (found : Method.ofName? name = some method) : name = method.name := by
  unfold Method.ofName? at found
  split at found <;> simp at found <;> subst found <;> rfl

theorem Assertion.ofName?_eq_some_boolean {name : String} {replacement : Replacement}
    (found : Assertion.ofName? name = some (.boolean replacement)) :
    AssertsBoolean name replacement := by
  unfold Assertion.ofName? at found
  split at found <;> simp at found <;> subst found <;> constructor

theorem Assertion.ofName?_eq_some_equality {name : String}
    (found : Assertion.ofName? name = some .equality) : AssertsEquality name := by
  unfold Assertion.ofName? at found
  split at found <;> simp at found <;> constructor

theorem isOutcome_of_replacementFor? {expected : Cursor} {replacement : Replacement}
    (found : replacementFor? expected = some replacement) :
    IsOutcome contentChildren expected replacement := by
  have leads := (mem_eval.mp expected.withoutParentheses_mem_eval).1
  unfold replacementFor? at found
  split at found
  · obtain rfl := Option.some.inj found
    exact .true leads ‹_›
  · obtain rfl := Option.some.inj found
    exact .false leads ‹_›
  · simp at found

theorem isPlain_iff {arguments : List Cursor} :
    isPlain arguments = true ↔ ∀ entry ∈ arguments, entry.kind ≠ .spreadElement := by
  simp [isPlain]

theorem callsMethod_of_methodCall? {source : Source} {expression object argument : Cursor}
    {method : Method}
    (found : methodCall? source expression = some ⟨method, object, some argument⟩) :
    CallsMethod contentChildren contentChildren source expression method.name object
      argument := by
  simp only [methodCall?] at found
  split at found
  · rename_i isCall
    simp only [Option.bind_eq_bind, Option.bind_eq_some_iff] at found
    obtain ⟨callee, calleeFound, found⟩ := found
    obtain ⟨method', ⟨name, nameFound, methodFound⟩, found⟩ := found
    obtain ⟨object', objectFound, arguments, argumentsFound, found⟩ := found
    split at found
    · rename_i plain
      obtain ⟨rfl, rfl, headFound⟩ := MethodCall.mk.inj (Option.some.inj found)
      obtain ⟨isMember, property, propertyFound, isName, rfl⟩ :=
        Cursor.propertyName?_eq_some_iff.mp nameFound
      obtain ⟨others, rfl⟩ := List.head?_eq_some_iff.mp headFound
      refine ⟨expression.withoutParentheses,
        (mem_eval.mp expression.withoutParentheses_mem_eval).1, ?_⟩
      exact
        { isCall := isCall
          callee := ⟨callee, property, calleeFound, isMember, propertyFound, isName,
            Method.ofName?_eq_some methodFound, objectFound⟩
          arguments := ⟨others, Cursor.callArguments?_eq_some_iff.mp argumentsFound,
            isPlain_iff.mp plain⟩ }
    · simp at found
  · simp at found

theorem isMatch_of_textAndPattern? {source : Source} {expression text pattern : Cursor}
    {call : MethodCall} (found : methodCall? source expression = some call)
    (parts : call.textAndPattern? = some (text, pattern)) :
    IsMatch contentChildren contentChildren source expression text pattern := by
  obtain ⟨method, object, argument?⟩ := call
  obtain ⟨argument, rfl, partsEq⟩ := Option.map_eq_some_iff.mp parts
  have calls := callsMethod_of_methodCall? found
  cases method with
  | test =>
      obtain ⟨rfl, rfl⟩ := Prod.mk.inj partsEq
      exact Or.inl calls
  | find =>
      obtain ⟨rfl, rfl⟩ := Prod.mk.inj partsEq
      exact Or.inr (Or.inl calls)
  | search =>
      obtain ⟨rfl, rfl⟩ := Prod.mk.inj partsEq
      exact Or.inr (Or.inr calls)

/-- The edits of an assertion of a boolean. -/
theorem exists_isMatch_of_booleanEdits? {file : File} {arguments : List Cursor}
    {edits : List Edit} (found : booleanEdits? file arguments = some edits) :
    ∃ first others text pattern, arguments = first :: others ∧
      IsMatch contentChildren contentChildren file.source first text pattern ∧
      edits =
        [⟨first.span, text.text file.source ++ ", " ++ pattern.text file.source⟩] := by
  simp only [booleanEdits?, Option.bind_eq_bind, Option.bind_eq_some_iff] at found
  obtain ⟨first, headFound, call, callFound, ⟨text, pattern⟩, parts, found⟩ := found
  obtain ⟨others, rfl⟩ := List.head?_eq_some_iff.mp headFound
  simp only at found
  split at found
  · exact ⟨first, others, text, pattern, rfl, isMatch_of_textAndPattern? callFound parts,
      (Option.some.inj found).symm⟩
  · simp at found

/-- The edits of an assertion of equality. -/
theorem exists_comparesMatch_of_equalityEdits? {file : File} {arguments : List Cursor}
    {replacement : Replacement} {edits : List Edit}
    (found : equalityEdits? file arguments = some (replacement, edits)) :
    ∃ first second others text pattern, arguments = first :: second :: others ∧
      ComparesMatch contentChildren contentChildren file.source first second text
        pattern replacement ∧
      edits =
        [⟨first.span, text.text file.source⟩, ⟨second.span, pattern.text file.source⟩] := by
  unfold equalityEdits? at found
  split at found
  · rename_i first second others
    simp only [Option.bind_eq_bind, Option.bind_eq_some_iff] at found
    obtain ⟨⟨matching, expected⟩, sidesFound, replacement', outcomeFound, call, callFound,
      found⟩ := found
    split at found
    · rename_i isTest
      simp only [Option.bind_eq_some_iff, Option.some.injEq, Prod.mk.injEq] at found
      obtain ⟨text, textFound, rfl, rfl⟩ := found
      obtain ⟨method, object, argument?⟩ := call
      simp only at isTest textFound callFound
      subst isTest textFound
      have calls := callsMethod_of_methodCall? callFound
      have isOutcome := isOutcome_of_replacementFor? outcomeFound
      refine ⟨first, second, others, text, object, rfl, ?_, rfl⟩
      unfold sides? at sidesFound
      split at sidesFound
      · obtain ⟨rfl, rfl⟩ := Prod.mk.inj (Option.some.inj sidesFound)
        exact Or.inl ⟨calls, isOutcome⟩
      · obtain ⟨rfl, rfl⟩ := Prod.mk.inj (Option.some.inj sidesFound)
        exact Or.inr ⟨calls, isOutcome⟩
      · simp at sidesFound
    · simp at found
  · simp at found

/-- What the rule proposes for a call rewrites it. -/
theorem rewrites_of_replacement? {file : File} {call : Cursor} {replacement : Replacement}
    {edits : List Edit} (found : replacement? file call = some (replacement, edits)) :
    Rewrites file.source call edits := by
  simp only [replacement?, Option.bind_eq_bind, Option.bind_eq_some_iff] at found
  obtain ⟨callee, calleeFound, found⟩ := found
  split at found
  · simp only [Option.bind_eq_some_iff] at found
    obtain ⟨property, propertyFound, assertion, assertionFound, arguments, argumentsFound,
      found⟩ := found
    have hasArguments := Cursor.callArguments?_eq_some_iff.mp argumentsFound
    split at found
    · simp only [Option.bind_eq_some_iff, Option.some.injEq, Prod.mk.injEq] at found
      obtain ⟨⟨replacement', argumentEdits⟩, editsFound, rfl, rfl⟩ := found
      cases assertion with
      | boolean replacement'' =>
          simp only [argumentEdits?, Option.map_eq_some_iff, Prod.mk.injEq] at editsFound
          obtain ⟨_, editsFound, rfl, rfl⟩ := editsFound
          obtain ⟨first, others, text, pattern, rfl, isMatch, rfl⟩ :=
            exists_isMatch_of_booleanEdits? editsFound
          have front : ∀ argument ∈ [first], argument.kind.isAside = false := by
            simp [isMatch.isAside_eq_false]
          obtain ⟨others', mainArguments⟩ := Cursor.HasArguments.exists_main hasArguments front
          exact .boolean calleeFound propertyFound
            (Assertion.ofName?_eq_some_boolean assertionFound) mainArguments
            (isMatch_contents_iff.mp isMatch).1
      | equality =>
          obtain ⟨first, second, others, text, pattern, rfl, compares, rfl⟩ :=
            exists_comparesMatch_of_equalityEdits? editsFound
          have front : ∀ argument ∈ [first, second], argument.kind.isAside = false := by
            simp [compares.isAside_eq_false]
          obtain ⟨others', mainArguments⟩ := Cursor.HasArguments.exists_main hasArguments front
          exact .equality calleeFound propertyFound
            (Assertion.ofName?_eq_some_equality assertionFound) mainArguments
            (comparesMatch_contents_iff.mp compares).1
    · simp at found
  · simp at found

end RegexAssertion

end AssertLint
