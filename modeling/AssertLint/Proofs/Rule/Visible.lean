import AssertLint.Proofs.Rule.Finding

/-!
# What the rule on regular expressions reads

The rule reads parentheses and arguments off the contents of nodes.  Comments in the old
style of web pages are among the contents, though they are no parts of an expression, and
so the rule may take a comment for an argument.  This file says where an assertion on a
match is visible to the rule, and shows that the rule finds those that are and no others,
except for calls of methods that have a comment in the place of their arguments.
-/

namespace AssertLint

open StateTransition

namespace RegexAssertion

open Cursor (accessed? contentChildren inParentheses? mainChildren)

/-- The number of arguments that an assertion looks at. -/
def checkedCount : String → Nat
  | "is" => 2
  | "deepEqual" => 2
  | _ => 1

/-- An assertion looks at this argument. -/
def LooksAt (parts : Cursor → List Cursor) (source : Source) (call argument : Cursor) : Prop :=
  ∃ callee property arguments,
    call.field? .callee = some callee ∧ callee.field? .property = some property ∧
      call.HasArguments parts arguments ∧
      argument ∈ arguments.take (checkedCount (property.text source))

/-- An expression is, up to parentheses, a call with this list of arguments. -/
def HoldsList (expression call list : Cursor) : Prop :=
  Reaches (inParentheses? mainChildren) expression call ∧ call.kind = .callExpression ∧
    call.field? .arguments = some list

/-- An expression is a call of a method of texts, and an aside comes in front of the
regular expression. -/
def HidesPattern (source : Source) (expression : Cursor) : Prop :=
  ∃ call list callee property, HoldsList expression call list ∧
    call.field? .callee = some callee ∧ callee.field? .property = some property ∧
    property.text source ∈ ["match", "search"] ∧ list.StartsWithAside

/-- An expression is a call without arguments but with an aside in their place. -/
def LacksArgument (expression : Cursor) : Prop :=
  ∃ call list, HoldsList expression call list ∧ list.StartsWithAside ∧ list.mainChildren = []

/-- No aside comes first where the rule reads on: not in parentheses between the object of
the assertion and its name, not in front of an argument that the assertion looks at or in
parentheses around it, not in front of a regular expression that is an argument of a method,
and not everywhere where it is decided that the assertion is in a test. -/
structure IsVisible (file : File) (node : Cursor) : Prop where
  object : ∀ callee ∈ node.field? .callee, ¬ callee.IsObscured (accessed? mainChildren)
  arguments : ∀ argument, LooksAt contentChildren file.source node argument →
    argument.kind.isAside = false
  parentheses : ∀ argument, LooksAt mainChildren file.source node argument →
    ¬ argument.IsObscured (inParentheses? mainChildren)
  pattern : ∀ argument, LooksAt mainChildren file.source node argument →
    ¬ HidesPattern file.source argument
  inTest : ∃ function ∈ node.ancestors, ∃ start,
    file.scopes.IsTest function start ∧ ¬ start.IsObscured

/-! ## The arguments that an assertion looks at -/

section Front

variable {inside parts : Cursor → List Cursor} {file : File} {name : String}
  {arguments : List Cursor}

theorem AssertsBoolean.checkedCount_eq {replacement : Replacement}
    (asserts : AssertsBoolean name replacement) : checkedCount name = 1 := by
  cases asserts <;> rfl

theorem AssertsEquality.checkedCount_eq (asserts : AssertsEquality name) :
    checkedCount name = 2 := by
  cases asserts <;> rfl

theorem looksAt_iff {call callee property list argument : Cursor}
    (calleeFound : call.field? .callee = some callee)
    (propertyFound : callee.field? .property = some property)
    (listFound : call.field? .arguments = some list) (isList : list.kind = .arguments) :
    LooksAt parts file.source call argument ↔
      argument ∈ (parts list).take (checkedCount (property.text file.source)) := by
  constructor
  · rintro ⟨callee', property', _, calleeFound', propertyFound',
      ⟨list', listFound', -, rfl⟩, member⟩
    obtain rfl := Option.some.inj (calleeFound.symm.trans calleeFound')
    obtain rfl := Option.some.inj (propertyFound.symm.trans propertyFound')
    obtain rfl := Option.some.inj (listFound.symm.trans listFound')
    exact member
  · intro member
    exact ⟨callee, property, _, calleeFound, propertyFound, ⟨list, listFound, isList, rfl⟩, member⟩

/-- An assertion looks at no further arguments. -/
theorem checksMatch_take_iff :
    ChecksMatch inside parts file name (arguments.take (checkedCount name)) ↔
      ChecksMatch inside parts file name arguments := by
  constructor
  · intro checks
    generalize checked : arguments.take (checkedCount name) = front at checks
    rw [← List.take_append_drop (checkedCount name) arguments, checked]
    cases checks with
    | boolean asserts isMatch isRegex => exact .boolean asserts isMatch isRegex
    | equality asserts compares isRegex => exact .equality asserts compares isRegex
  · intro checks
    cases checks with
    | boolean asserts isMatch isRegex =>
        rw [asserts.checkedCount_eq]
        exact .boolean asserts isMatch isRegex
    | equality asserts compares isRegex =>
        rw [asserts.checkedCount_eq]
        exact .equality asserts compares isRegex

theorem ChecksMatch.isAside_eq_false (checks : ChecksMatch inside parts file name arguments) :
    ∀ argument ∈ arguments.take (checkedCount name), argument.kind.isAside = false := by
  cases checks with
  | boolean asserts isMatch isRegex =>
      rw [asserts.checkedCount_eq]
      simp [isMatch.isAside_eq_false]
  | equality asserts compares isRegex =>
      rw [asserts.checkedCount_eq]
      simp [compares.isAside_eq_false]

/-- The first arguments are read as they are if there is no aside among them. -/
theorem take_mainChildren {list : Cursor} {count : Nat}
    (noAside : ∀ argument ∈ list.contentChildren.take count, argument.kind.isAside = false) :
    list.mainChildren.take count = list.contentChildren.take count := by
  have frontKept : (list.contentChildren.take count).filter (fun child => !child.kind.isAside) =
      list.contentChildren.take count :=
    List.filter_eq_self.mpr fun argument member => by simp [noAside argument member]
  conv_lhs =>
    rw [Cursor.mainChildren_eq, ← List.take_append_drop count list.contentChildren,
      List.filter_append, frontKept]
  by_cases long : count ≤ list.contentChildren.length
  · rw [List.take_append_of_le_length (by simp [long]), List.take_take, Nat.min_self]
  · rw [List.drop_of_length_le (by omega)]
    simp

theorem unspread_contents_iff {list : Cursor} :
    (∀ entry ∈ list.contentChildren, entry.kind ≠ .spreadElement) ↔
      ∀ entry ∈ list.mainChildren, entry.kind ≠ .spreadElement := by
  simp only [Cursor.mem_mainChildren_iff_contentChildren]
  constructor
  · intro unspread entry member
    exact unspread entry member.1
  · intro unspread entry member isSpread
    exact unspread entry ⟨member, by rw [isSpread]; rfl⟩ isSpread

end Front

/-- Where a tree has no asides, no call has one in the place of its arguments. -/
theorem not_lacksArgument_of_plain {tree : Node} {expression : Cursor}
    (plain : ∀ node ∈ tree.cursors, node.kind.isAside = false)
    (lies : Cursor.LiesIn tree expression) : ¬ LacksArgument expression := by
  rintro ⟨call, list, ⟨leads, -, listFound⟩, ⟨first, firstFound, isAside⟩, -⟩
  have callLies := lies.of_reaches (fun _ _ => Cursor.mem_children_of_inParentheses?) leads
  have firstLies := (callLies.of_field? listFound).of_mem_children
    (Cursor.mem_children_of_firstContent? firstFound)
  rw [plain first (Cursor.mem_cursors_iff.mpr firstLies)] at isAside
  contradiction

theorem LooksAt.liesIn {tree : Node} {source : Source} {call argument : Cursor}
    (lies : Cursor.LiesIn tree call) (looked : LooksAt mainChildren source call argument) :
    Cursor.LiesIn tree argument := by
  obtain ⟨callee, property, _, -, -, ⟨list, listFound, -, rfl⟩, member⟩ := looked
  exact (lies.of_field? listFound).of_mem_children
    (Cursor.mem_mainChildren_iff.mp (List.mem_of_mem_take member)).1

/-! ## Reading up to the method -/

section Outside

variable {parts : Cursor → List Cursor} {file : File} {name : String}

theorem checksMatch_contents_iff {arguments : List Cursor} :
    ChecksMatch contentChildren parts file name arguments ↔
      ChecksMatch mainChildren parts file name arguments ∧
        ∀ argument ∈ arguments.take (checkedCount name),
          ¬ argument.IsObscured (inParentheses? mainChildren) := by
  constructor
  · intro checks
    cases checks with
    | boolean asserts isMatch isRegex =>
        obtain ⟨isMatch, clear⟩ := isMatch_contents_iff.mp isMatch
        rw [asserts.checkedCount_eq]
        exact ⟨.boolean asserts isMatch isRegex, by simpa using clear⟩
    | equality asserts compares isRegex =>
        obtain ⟨compares, clear⟩ := comparesMatch_contents_iff.mp compares
        rw [asserts.checkedCount_eq]
        exact ⟨.equality asserts compares isRegex, by simpa using clear⟩
  · rintro ⟨checks, clear⟩
    cases checks with
    | boolean asserts isMatch isRegex =>
        rw [asserts.checkedCount_eq] at clear
        exact .boolean asserts (isMatch_contents_iff.mpr ⟨isMatch, by simpa using clear⟩) isRegex
    | equality asserts compares isRegex =>
        rw [asserts.checkedCount_eq] at clear
        exact .equality asserts (comparesMatch_contents_iff.mpr ⟨compares, by simpa using clear⟩)
          isRegex

/-- The arguments of an assertion are read where no aside comes in front of them or obscures
them. -/
theorem checksMatch_list_iff {list : Cursor} :
    ChecksMatch contentChildren parts file name list.contentChildren ↔
      ChecksMatch mainChildren parts file name list.mainChildren ∧
        (∀ argument ∈ list.contentChildren.take (checkedCount name),
          argument.kind.isAside = false) ∧
        ∀ argument ∈ list.mainChildren.take (checkedCount name),
          ¬ argument.IsObscured (inParentheses? mainChildren) := by
  rw [checksMatch_contents_iff]
  constructor
  · rintro ⟨checks, clear⟩
    have noAside := checks.isAside_eq_false
    have sameFront := take_mainChildren noAside
    rw [← checksMatch_take_iff, ← sameFront, checksMatch_take_iff] at checks
    exact ⟨checks, noAside, by rwa [sameFront]⟩
  · rintro ⟨checks, noAside, clear⟩
    have sameFront := take_mainChildren noAside
    rw [← checksMatch_take_iff, sameFront, checksMatch_take_iff] at checks
    exact ⟨checks, by rwa [← sameFront]⟩

/-- Up to the arguments of the method, an assertion on a match is read where no aside
comes first. -/
theorem assertsMatch_contents_iff {node : Cursor} :
    AssertsMatch contentChildren parts file node ↔
      AssertsMatch mainChildren parts file node ∧
        (∀ callee ∈ node.field? .callee, ¬ callee.IsObscured (accessed? mainChildren)) ∧
        (∀ argument, LooksAt contentChildren file.source node argument →
          argument.kind.isAside = false) ∧
        ∀ argument, LooksAt mainChildren file.source node argument →
          ¬ argument.IsObscured (inParentheses? mainChildren) := by
  constructor
  · rintro ⟨_, _, ⟨⟨callee, property, root, calleeFound, propertyFound, rfl, leads, isName,
      rootText⟩, ⟨list, listFound, isList, rfl⟩, unspread⟩, checks⟩
    obtain ⟨mainLeads, clear⟩ := (Cursor.reaches_object?_iff isName).mp leads
    obtain ⟨checks, noAside, clearArguments⟩ := checksMatch_list_iff.mp checks
    have looksAt {inside : Cursor → List Cursor} {argument : Cursor} :
        LooksAt inside file.source node argument ↔ _ :=
      looksAt_iff calleeFound propertyFound listFound isList
    refine ⟨⟨_, _, ⟨⟨callee, property, root, calleeFound, propertyFound, rfl, mainLeads, isName,
      rootText⟩, ⟨list, listFound, isList, rfl⟩, unspread_contents_iff.mp unspread⟩, checks⟩,
      ?_, ?_, ?_⟩
    · intro callee' calleeFound'
      obtain rfl := Option.some.inj (calleeFound.symm.trans calleeFound')
      exact clear
    · exact fun argument looked => noAside argument (looksAt.mp looked)
    · exact fun argument looked => clearArguments argument (looksAt.mp looked)
  · rintro ⟨⟨_, _, ⟨⟨callee, property, root, calleeFound, propertyFound, rfl, leads, isName,
      rootText⟩, ⟨list, listFound, isList, rfl⟩, unspread⟩, checks⟩, clear, noAside, clearArguments⟩
    have looksAt {inside : Cursor → List Cursor} {argument : Cursor} :
        LooksAt inside file.source node argument ↔ _ :=
      looksAt_iff calleeFound propertyFound listFound isList
    refine ⟨_, _, ⟨⟨callee, property, root, calleeFound, propertyFound, rfl,
      (Cursor.reaches_object?_iff isName).mpr ⟨leads, clear callee calleeFound⟩, isName,
      rootText⟩, ⟨list, listFound, isList, rfl⟩, unspread_contents_iff.mpr unspread⟩,
      checksMatch_list_iff.mpr ⟨checks, ?_, ?_⟩⟩
    · exact fun argument member => noAside argument (looksAt.mpr member)
    · exact fun argument member => clearArguments argument (looksAt.mpr member)

end Outside

/-! ## Reading the arguments of the method -/

/-- An aside is no regular expression. -/
theorem isAside_eq_false_of_classify {table : ScopeTable} {cursor : Cursor}
    (isRegex : table.classify cursor = .regex) : cursor.kind.isAside = false := by
  by_contra isAside
  have bare : cursor.withoutParentheses = cursor := by
    refine (Cursor.withoutParentheses_eq_iff ?_).mpr .refl
    intro isParenthesized
    simp [isParenthesized, Kind.isAside] at isAside
  have isEnd : table.source? cursor = none := by
    cases kindEq : cursor.kind <;> simp_all [Kind.isAside, ScopeTable.source?]
  rw [ScopeTable.classify, bare, ScopeTable.origin_eq_self isEnd] at isRegex
  cases kindEq : cursor.kind <;>
    simp_all [Kind.isAside, ScopeTable.classOfOrigin, Kind.isLiteral]

section Method

variable {source : Source} {name : String} {call object argument : Cursor}

/-- A method is read to have an argument where it has one, unless an aside stands in its
place. -/
theorem exists_isMethodCall_iff
    (complete : ∀ list, call.field? .arguments = some list → list.StartsWithAside →
      list.mainChildren ≠ []) :
    (∃ argument, IsMethodCall contentChildren source call name object argument) ↔
      ∃ argument, IsMethodCall mainChildren source call name object argument := by
  constructor
  · rintro ⟨argument, isCall, callee, others, ⟨list, listFound, isList, contents⟩, unspread⟩
    have nonempty : list.mainChildren ≠ [] := by
      by_cases starts : list.StartsWithAside
      · exact complete list listFound starts
      · intro isEmpty
        have headEq := Cursor.head?_mainChildren starts
        simp [isEmpty, contents] at headEq
    obtain ⟨argument', others', mainEq⟩ := List.exists_cons_of_ne_nil nonempty
    rw [← contents, unspread_contents_iff, mainEq] at unspread
    exact ⟨argument', isCall, callee, others', ⟨list, listFound, isList, mainEq⟩, unspread⟩
  · rintro ⟨argument, isCall, callee, others, ⟨list, listFound, isList, mainEq⟩, unspread⟩
    have member : argument ∈ list.contentChildren :=
      (Cursor.mem_mainChildren_iff_contentChildren.mp (by simp [mainEq])).1
    obtain ⟨argument', others', contents⟩ :=
      List.exists_cons_of_ne_nil (List.ne_nil_of_mem member)
    rw [← mainEq, ← unspread_contents_iff, contents] at unspread
    exact ⟨argument', isCall, callee, others', ⟨list, listFound, isList, contents⟩, unspread⟩

/-- A first argument that is no aside is read where no aside comes in front of it. -/
theorem isMethodCall_contents_iff (isPart : argument.kind.isAside = false) :
    IsMethodCall contentChildren source call name object argument ↔
      IsMethodCall mainChildren source call name object argument ∧
        ∀ list, call.field? .arguments = some list → ¬ list.StartsWithAside := by
  constructor
  · rintro ⟨isCall, callee, others, ⟨list, listFound, isList, contents⟩, unspread⟩
    obtain ⟨others', mainEq⟩ := Cursor.mainChildren_of_contentChildren_cons contents isPart
    rw [← contents, unspread_contents_iff, mainEq] at unspread
    refine ⟨⟨isCall, callee, others', ⟨list, listFound, isList, mainEq⟩, unspread⟩, ?_⟩
    intro list' listFound'
    obtain rfl := Option.some.inj (listFound.symm.trans listFound')
    exact Cursor.not_startsWithAside (by simp [contents]) isPart
  · rintro ⟨⟨isCall, callee, others, ⟨list, listFound, isList, mainEq⟩, unspread⟩, clear⟩
    have headEq := Cursor.head?_mainChildren (clear list listFound)
    rw [mainEq] at headEq
    obtain ⟨others', contents⟩ := List.head?_eq_some_iff.mp headEq.symm
    rw [← mainEq, ← unspread_contents_iff, contents] at unspread
    exact ⟨isCall, callee, others', ⟨list, listFound, isList, contents⟩, unspread⟩

end Method

section Expression

variable {source : Source} {name : String} {expression object argument : Cursor}

/-- An expression is at most one call. -/
theorem HoldsList.call_eq {call call' list : Cursor} (holds : HoldsList expression call' list)
    (leads : Reaches (inParentheses? mainChildren) expression call)
    (isBare : call.kind ≠ .parenthesizedExpression) : call' = call :=
  Cursor.eq_of_reaches_inParentheses? holds.1 leads (by simp [holds.2.1]) isBare

theorem exists_callsMethod_iff (complete : ¬ LacksArgument expression) :
    (∃ argument, CallsMethod mainChildren contentChildren source expression name object argument) ↔
      ∃ argument, CallsMethod mainChildren mainChildren source expression name object
        argument := by
  have sameCall {call : Cursor} (leads : Reaches (inParentheses? mainChildren) expression call)
      (isCall : call.kind = .callExpression) :
      (∃ argument, IsMethodCall contentChildren source call name object argument) ↔ _ :=
    exists_isMethodCall_iff fun list listFound starts isEmpty =>
      complete ⟨call, list, ⟨leads, isCall, listFound⟩, starts, isEmpty⟩
  constructor
  · rintro ⟨argument, call, leads, isMethodCall⟩
    obtain ⟨argument', isMethodCall'⟩ :=
      (sameCall leads isMethodCall.isCall).mp ⟨argument, isMethodCall⟩
    exact ⟨argument', call, leads, isMethodCall'⟩
  · rintro ⟨argument, call, leads, isMethodCall⟩
    obtain ⟨argument', isMethodCall'⟩ :=
      (sameCall leads isMethodCall.isCall).mpr ⟨argument, isMethodCall⟩
    exact ⟨argument', call, leads, isMethodCall'⟩

/-- The regular expression that is an argument of a method of texts is read where no aside
hides it. -/
theorem callsMethod_pattern_iff (finds : name ∈ ["match", "search"])
    (isPart : argument.kind.isAside = false) :
    CallsMethod mainChildren contentChildren source expression name object argument ↔
      CallsMethod mainChildren mainChildren source expression name object argument ∧
        ¬ HidesPattern source expression := by
  constructor
  · rintro ⟨call, leads, isMethodCall⟩
    obtain ⟨isMethodCall', clear⟩ := (isMethodCall_contents_iff isPart).mp isMethodCall
    refine ⟨⟨call, leads, isMethodCall'⟩, ?_⟩
    rintro ⟨call', list, callee, property, holds, -, -, -, starts⟩
    obtain rfl := holds.call_eq leads (by simp [isMethodCall.isCall])
    exact clear list holds.2.2 starts
  · rintro ⟨⟨call, leads, isMethodCall⟩, shown⟩
    refine ⟨call, leads, (isMethodCall_contents_iff isPart).mpr ⟨isMethodCall, ?_⟩⟩
    obtain ⟨callee, property, calleeFound, -, propertyFound, -, nameEq, -⟩ := isMethodCall.callee
    intro list listFound starts
    exact shown ⟨call, list, callee, property, ⟨leads, isMethodCall.isCall, listFound⟩,
      calleeFound, propertyFound, nameEq ▸ finds, starts⟩

theorem CallsMethod.not_hidesPattern {parts : Cursor → List Cursor}
    (calls : CallsMethod mainChildren parts source expression "test" object argument) :
    ¬ HidesPattern source expression := by
  obtain ⟨call, leads, isMethodCall⟩ := calls
  rintro ⟨call', list, callee', property', holds, calleeFound', propertyFound', finds, -⟩
  obtain rfl := holds.call_eq leads (by simp [isMethodCall.isCall])
  obtain ⟨callee, property, calleeFound, -, propertyFound, -, nameEq, -⟩ := isMethodCall.callee
  obtain rfl := Option.some.inj (calleeFound.symm.trans calleeFound')
  obtain rfl := Option.some.inj (propertyFound.symm.trans propertyFound')
  simp [nameEq] at finds

theorem CallsMethod.not_lacksArgument
    (calls : CallsMethod mainChildren mainChildren source expression name object argument) :
    ¬ LacksArgument expression := by
  obtain ⟨call, leads, isMethodCall⟩ := calls
  rintro ⟨call', list, holds, -, isEmpty⟩
  obtain rfl := holds.call_eq leads (by simp [isMethodCall.isCall])
  obtain ⟨others, ⟨list', listFound, -, mainEq⟩, -⟩ := isMethodCall.arguments
  obtain rfl := Option.some.inj (listFound.symm.trans holds.2.2)
  simp [isEmpty] at mainEq

/-- A boolean literal is no call. -/
theorem not_holdsList_of_isOutcome {replacement : Replacement} {call list : Cursor}
    (isOutcome : IsOutcome mainChildren expression replacement) :
    ¬ HoldsList expression call list := by
  obtain ⟨literal, leads, isLiteral⟩ := isOutcome.exists_literal
  simp only [List.mem_cons, List.not_mem_nil, or_false] at isLiteral
  intro holds
  have isCall := holds.2.1
  rw [holds.call_eq leads (by rcases isLiteral with isTrue | isFalse <;> simp [*])] at isCall
  rcases isLiteral with isTrue | isFalse
  · simp [isTrue] at isCall
  · simp [isFalse] at isCall

/-- A match is read where no aside hides the regular expression. -/
theorem exists_isMatch_iff {table : ScopeTable} (complete : ¬ LacksArgument expression) :
    (∃ text pattern, IsMatch mainChildren contentChildren source expression text pattern ∧
        table.classify pattern = .regex) ↔
      (∃ text pattern, IsMatch mainChildren mainChildren source expression text pattern ∧
        table.classify pattern = .regex) ∧ ¬ HidesPattern source expression := by
  constructor
  · rintro ⟨text, pattern, isTest | isFind | isSearch, isRegex⟩
    · obtain ⟨text', isTest'⟩ := (exists_callsMethod_iff complete).mp ⟨text, isTest⟩
      exact ⟨⟨text', pattern, Or.inl isTest', isRegex⟩, isTest.not_hidesPattern⟩
    · obtain ⟨isFind, shown⟩ :=
        (callsMethod_pattern_iff (by simp) (isAside_eq_false_of_classify isRegex)).mp isFind
      exact ⟨⟨text, pattern, Or.inr (Or.inl isFind), isRegex⟩, shown⟩
    · obtain ⟨isSearch, shown⟩ :=
        (callsMethod_pattern_iff (by simp) (isAside_eq_false_of_classify isRegex)).mp isSearch
      exact ⟨⟨text, pattern, Or.inr (Or.inr isSearch), isRegex⟩, shown⟩
  · rintro ⟨⟨text, pattern, isTest | isFind | isSearch, isRegex⟩, shown⟩
    · obtain ⟨text', isTest'⟩ := (exists_callsMethod_iff complete).mpr ⟨text, isTest⟩
      exact ⟨text', pattern, Or.inl isTest', isRegex⟩
    · have isFind := (callsMethod_pattern_iff (by simp)
        (isAside_eq_false_of_classify isRegex)).mpr ⟨isFind, shown⟩
      exact ⟨text, pattern, Or.inr (Or.inl isFind), isRegex⟩
    · have isSearch := (callsMethod_pattern_iff (by simp)
        (isAside_eq_false_of_classify isRegex)).mpr ⟨isSearch, shown⟩
      exact ⟨text, pattern, Or.inr (Or.inr isSearch), isRegex⟩

end Expression

/-- A comparison is read where it is made. -/
theorem exists_comparesMatch_iff {source : Source} {first second pattern : Cursor}
    {replacement : Replacement} (firstComplete : ¬ LacksArgument first)
    (secondComplete : ¬ LacksArgument second) :
    (∃ text, ComparesMatch mainChildren contentChildren source first second text pattern
        replacement) ↔
      (∃ text, ComparesMatch mainChildren mainChildren source first second text pattern
        replacement) := by
  simp only [ComparesMatch, exists_or, exists_and_right, exists_callsMethod_iff firstComplete,
    exists_callsMethod_iff secondComplete]

theorem ComparesMatch.not_hidesPattern {parts : Cursor → List Cursor} {source : Source}
    {first second text pattern : Cursor} {replacement : Replacement}
    (compares : ComparesMatch mainChildren parts source first second text pattern replacement) :
    ¬ HidesPattern source first ∧ ¬ HidesPattern source second := by
  have literal {expression : Cursor}
      (isOutcome : IsOutcome mainChildren expression replacement) :
      ¬ HidesPattern source expression := by
    rintro ⟨call, list, callee, property, holds, -⟩
    exact not_holdsList_of_isOutcome isOutcome holds
  rcases compares with ⟨isTest, isOutcome⟩ | ⟨isTest, isOutcome⟩
  · exact ⟨isTest.not_hidesPattern, literal isOutcome⟩
  · exact ⟨literal isOutcome, isTest.not_hidesPattern⟩

/-- A match that is made has its argument. -/
theorem ChecksMatch.not_lacksArgument {file : File} {name : String} {arguments : List Cursor}
    (checks : ChecksMatch mainChildren mainChildren file name arguments) :
    ∀ argument ∈ arguments.take (checkedCount name), ¬ LacksArgument argument := by
  have literal {expression : Cursor} {replacement : Replacement}
      (isOutcome : IsOutcome mainChildren expression replacement) :
      ¬ LacksArgument expression := by
    rintro ⟨call, list, holds, -⟩
    exact not_holdsList_of_isOutcome isOutcome holds
  cases checks with
  | boolean asserts isMatch isRegex =>
      rw [asserts.checkedCount_eq]
      obtain ⟨method, object, argument, calls, -⟩ := isMatch.exists_callsMethod
      simpa using calls.not_lacksArgument
  | equality asserts compares isRegex =>
      rw [asserts.checkedCount_eq]
      rcases compares with ⟨isTest, isOutcome⟩ | ⟨isTest, isOutcome⟩
      · simpa using And.intro isTest.not_lacksArgument (literal isOutcome)
      · simpa using And.intro (literal isOutcome) isTest.not_lacksArgument

section Inside

variable {file : File}

theorem checksMatch_main_iff {name : String} {arguments : List Cursor}
    (complete : ∀ argument ∈ arguments.take (checkedCount name), ¬ LacksArgument argument) :
    ChecksMatch mainChildren contentChildren file name arguments ↔
      ChecksMatch mainChildren mainChildren file name arguments ∧
        ∀ argument ∈ arguments.take (checkedCount name), ¬ HidesPattern file.source argument := by
  constructor
  · intro checks
    cases checks with
    | boolean asserts isMatch isRegex =>
        rw [asserts.checkedCount_eq] at complete ⊢
        obtain ⟨⟨text, pattern, isMatch, isRegex⟩, shown⟩ :=
          (exists_isMatch_iff (by simpa using complete)).mp ⟨_, _, isMatch, isRegex⟩
        exact ⟨.boolean asserts isMatch isRegex, by simpa using shown⟩
    | equality asserts compares isRegex =>
        rw [asserts.checkedCount_eq] at complete ⊢
        simp only [List.take_succ_cons, List.take_zero, List.mem_cons, List.not_mem_nil, or_false,
          forall_eq_or_imp, forall_eq] at complete ⊢
        obtain ⟨text, compares'⟩ :=
          (exists_comparesMatch_iff complete.1 complete.2).mp ⟨_, compares⟩
        exact ⟨.equality asserts compares' isRegex, compares.not_hidesPattern⟩
  · rintro ⟨checks, shown⟩
    cases checks with
    | boolean asserts isMatch isRegex =>
        rw [asserts.checkedCount_eq] at complete shown
        obtain ⟨text, pattern, isMatch, isRegex⟩ :=
          (exists_isMatch_iff (by simpa using complete)).mpr
            ⟨⟨_, _, isMatch, isRegex⟩, by simpa using shown⟩
        exact .boolean asserts isMatch isRegex
    | equality asserts compares isRegex =>
        rw [asserts.checkedCount_eq] at complete
        simp only [List.take_succ_cons, List.take_zero, List.mem_cons, List.not_mem_nil, or_false,
          forall_eq_or_imp, forall_eq] at complete
        obtain ⟨text, compares'⟩ :=
          (exists_comparesMatch_iff complete.1 complete.2).mpr ⟨_, compares⟩
        exact .equality asserts compares' isRegex

variable {node : Cursor}

theorem assertsMatch_main_iff
    (complete : ∀ argument, LooksAt mainChildren file.source node argument →
      ¬ LacksArgument argument) :
    AssertsMatch mainChildren contentChildren file node ↔
      AssertsMatch mainChildren mainChildren file node ∧
        ∀ argument, LooksAt mainChildren file.source node argument →
          ¬ HidesPattern file.source argument := by
  have sameChecks {name : String} {arguments : List Cursor}
      (isReadAs : IsReadAs mainChildren file.source node name arguments) :
      ChecksMatch mainChildren contentChildren file name arguments ↔
        ChecksMatch mainChildren mainChildren file name arguments ∧
          ∀ argument, LooksAt mainChildren file.source node argument →
            ¬ HidesPattern file.source argument := by
    obtain ⟨callee, property, -, calleeFound, propertyFound, rfl, -⟩ := isReadAs.callee
    obtain ⟨list, listFound, isList, rfl⟩ := isReadAs.list
    have looksAt {argument : Cursor} : LooksAt mainChildren file.source node argument ↔ _ :=
      looksAt_iff calleeFound propertyFound listFound isList
    simp only [looksAt] at complete ⊢
    exact checksMatch_main_iff complete
  constructor
  · rintro ⟨name, arguments, isReadAs, checks⟩
    obtain ⟨checks, shown⟩ := (sameChecks isReadAs).mp checks
    exact ⟨⟨name, arguments, isReadAs, checks⟩, shown⟩
  · rintro ⟨⟨name, arguments, isReadAs, checks⟩, shown⟩
    exact ⟨name, arguments, isReadAs, (sameChecks isReadAs).mpr ⟨checks, shown⟩⟩

theorem AssertsMatch.not_lacksArgument
    (asserts : AssertsMatch mainChildren mainChildren file node) :
    ∀ argument, LooksAt mainChildren file.source node argument → ¬ LacksArgument argument := by
  obtain ⟨_, _, ⟨⟨callee, property, -, calleeFound, propertyFound, rfl, -⟩,
    ⟨list, listFound, isList, rfl⟩, -⟩, checks⟩ := asserts
  intro argument looked
  exact checks.not_lacksArgument argument
    ((looksAt_iff calleeFound propertyFound listFound isList).mp looked)

/-- The rule finds what is visible to it, and beyond that only calls of methods that lack
their argument. -/
theorem isFinding_and_isVisible_iff :
    IsFinding file node ∧ IsVisible file node ↔
      (IsDescribed file.source node ∧ AssertsMatch contentChildren contentChildren file node ∧
        file.scopes.isInTest node = true) ∧
      ∀ argument, LooksAt mainChildren file.source node argument → ¬ LacksArgument argument := by
  rw [assertsMatch_contents_iff, ScopeTable.isInTest_iff]
  constructor
  · rintro ⟨⟨described, asserts, -⟩, visible⟩
    have complete := asserts.not_lacksArgument
    exact ⟨⟨described, ⟨(assertsMatch_main_iff complete).mpr ⟨asserts, visible.pattern⟩,
      visible.object, visible.arguments, visible.parentheses⟩, visible.inTest⟩, complete⟩
  · rintro ⟨⟨described, ⟨asserts, object, arguments, parentheses⟩, inTest⟩, complete⟩
    obtain ⟨asserts, pattern⟩ := (assertsMatch_main_iff complete).mp asserts
    obtain ⟨function, above, start, isTest, clear⟩ := inTest
    exact ⟨⟨described, asserts, function, above, start, isTest⟩,
      ⟨object, arguments, parentheses, pattern, function, above, start, isTest, clear⟩⟩

end Inside

end RegexAssertion

end AssertLint
