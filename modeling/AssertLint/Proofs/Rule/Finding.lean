import AssertLint.Proofs.Rule.Query
import AssertLint.Proofs.Rule.Shape
import AssertLint.Proofs.TestFile
import AssertLint.Proofs.Value.Origin

/-!
# What the rule on regular expressions looks for

The rule looks for assertions whose arguments check the outcome of matching a
text against a regular expression.  For an assertion on equality the rule asks
which of the two arguments is a regular expression.  A call of a method is one
exactly when the object of the method is, and a boolean literal never is, so the
question comes down to the object of the method.
-/

namespace AssertLint

open StateTransition

@[simp]
theorem File.source_ofTree (source : Source) (tree : Node) :
    (File.ofTree source tree).source = source := rfl

@[simp]
theorem File.scopes_ofTree (source : Source) (tree : Node) :
    (File.ofTree source tree).scopes = ScopeTable.ofTree source tree := rfl

namespace RegexAssertion

open Cursor (accessed? contentChildren inParentheses? mainChildren)

/-- A call reads `t.name(arguments)`, with nothing spread among the arguments.  There may
be more properties and parentheses between the object `t` and the name. -/
structure IsReadAs (parts : Cursor → List Cursor) (source : Source) (call : Cursor)
    (name : String) (arguments : List Cursor) : Prop where
  callee : ∃ callee property root,
    call.field? .callee = some callee ∧
      callee.field? .property = some property ∧
      property.text source = name ∧
      Reaches (accessed? parts) callee root ∧
      root.kind = .identifier ∧
      root.text source = assertionObject
  list : call.HasArguments parts arguments
  unspread : ∀ entry ∈ arguments, entry.kind ≠ .spreadElement

/-- An assertion with these arguments checks the outcome of matching a text against
a regular expression: an assertion on a boolean is handed the match, an assertion
on equality is handed the match and the expected outcome, in any order. -/
inductive ChecksMatch (inside parts : Cursor → List Cursor) (file : File) (name : String) :
    List Cursor → Prop where
  | boolean {first text pattern : Cursor} {others : List Cursor} {replacement : Replacement}
      (asserts : AssertsBoolean name replacement)
      (isMatch : IsMatch inside parts file.source first text pattern)
      (isRegex : file.scopes.classify pattern = .regex) :
      ChecksMatch inside parts file name (first :: others)
  | equality {first second text pattern : Cursor} {others : List Cursor}
      {replacement : Replacement} (asserts : AssertsEquality name)
      (compares : ComparesMatch inside parts file.source first second text pattern replacement)
      (isRegex : file.scopes.classify pattern = .regex) :
      ChecksMatch inside parts file name (first :: second :: others)

/-- A call is an assertion that checks the outcome of such a match. -/
def AssertsMatch (inside parts : Cursor → List Cursor) (file : File) (call : Cursor) : Prop :=
  ∃ name arguments, IsReadAs inside file.source call name arguments ∧
    ChecksMatch inside parts file name arguments

/-- A node that the rule is to report: a call of a property with the name of an assertion,
in a test, which checks the outcome of matching a text against a regular expression. -/
structure IsFinding (file : File) (node : Cursor) : Prop where
  isDescribed : IsDescribed file.source node
  asserts : AssertsMatch mainChildren mainChildren file node
  inTest : ∃ function ∈ node.ancestors, ∃ start, file.scopes.IsTest function start

/-- Where the callee of a call and its property are the only ones, the property with
the name of an assertion is the one that the rule reads. -/
theorem IsDescribed.callee_eq {source : Source} {call : Cursor}
    (described : IsDescribed source call) (oneCallee : call.HasAtMostOne .callee)
    (oneProperty : ∀ callee ∈ call.field? .callee, callee.HasAtMostOne .property) :
    ∃ callee property,
      call.field? .callee = some callee ∧ callee.kind = .memberExpression ∧
        callee.field? .property = some property ∧ property.kind = .propertyIdentifier ∧
        property.text source ∈ assertionNames := by
  obtain ⟨-, callee, calleeMem, isMember, property, propertyMem, isName, named⟩ := described
  have calleeFound := oneCallee.field?_eq calleeMem
  have propertyFound := (oneProperty callee calleeFound).field?_eq propertyMem
  exact ⟨callee, property, calleeFound, isMember, propertyFound, isName, named⟩

/-! ## Regular expressions on the sides of an equality -/

section Sides

variable (source : Source) {tree : Node}

/-- An expression counts as a regular expression exactly if what it is up to parentheses
does. -/
theorem isRegex_eq_of_reaches {expression last : Cursor} (lies : Cursor.LiesIn tree expression)
    (leads : Reaches Cursor.parenthesizedContent? expression last)
    (isBare : last.kind ≠ .parenthesizedExpression) :
    Cursor.LiesIn tree last ∧
      (ScopeTable.ofTree source tree).isRegex expression =
        (ScopeTable.ofTree source tree).isRegex last := by
  obtain rfl := (Cursor.withoutParentheses_eq_iff isBare).mpr leads
  refine ⟨lies.withoutParentheses, ?_⟩
  rw [ScopeTable.isRegex, ScopeTable.isRegex, ScopeTable.classify_withoutParentheses lies]

/-- A call of a method counts as a regular expression exactly if its object does. -/
theorem isRegex_eq_of_callsMethod {text : Source} {parts : Cursor → List Cursor}
    {expression object argument : Cursor} {name : String} (lies : Cursor.LiesIn tree expression)
    (calls : CallsMethod contentChildren parts text expression name object argument) :
    (ScopeTable.ofTree source tree).isRegex expression =
      (ScopeTable.ofTree source tree).isRegex object := by
  obtain ⟨call, leads, isCall, ⟨callee, -, calleeFound, isMember, -, -, -, objectFound⟩, -⟩ := calls
  obtain ⟨callLies, sameRegex⟩ := isRegex_eq_of_reaches source lies leads (by simp [isCall])
  have calleeLies := callLies.of_mem_children (Cursor.mem_children_of_field? calleeFound)
  have fromCall : (ScopeTable.ofTree source tree).source? call = some callee := by
    simp [ScopeTable.source?, isCall, calleeFound]
  have fromCallee : (ScopeTable.ofTree source tree).source? callee = some object := by
    simp [ScopeTable.source?, isMember, objectFound]
  have sameClass : (ScopeTable.ofTree source tree).classify call =
      (ScopeTable.ofTree source tree).classify object := by
    rw [ScopeTable.classify_eq_of_source? callLies (by simp [isCall]) fromCall,
      ScopeTable.classify_eq_of_source? calleeLies (by simp [isMember]) fromCallee]
  rw [sameRegex, ScopeTable.isRegex, ScopeTable.isRegex, sameClass]

/-- A boolean literal does not count as a regular expression. -/
theorem isRegex_of_isOutcome {expression : Cursor} {replacement : Replacement}
    (lies : Cursor.LiesIn tree expression)
    (isOutcome : IsOutcome contentChildren expression replacement) :
    (ScopeTable.ofTree source tree).isRegex expression = false := by
  obtain ⟨literal, leads, isLiteral⟩ := isOutcome.exists_literal
  simp only [List.mem_cons, List.not_mem_nil, or_false] at isLiteral
  have isBare : literal.kind ≠ .parenthesizedExpression := by
    rcases isLiteral with isTrue | isFalse
    · simp [isTrue]
    · simp [isFalse]
  have isEnd : (ScopeTable.ofTree source tree).source? literal = none := by
    rcases isLiteral with isTrue | isFalse
    · simp [ScopeTable.source?, isTrue]
    · simp [ScopeTable.source?, isFalse]
  obtain ⟨literalLies, sameRegex⟩ := isRegex_eq_of_reaches source lies leads isBare
  rw [sameRegex, ScopeTable.isRegex, ScopeTable.classify_eq literalLies,
    ScopeTable.origin_eq_self isEnd]
  rcases isLiteral with isTrue | isFalse
  · simp [ScopeTable.classOfOrigin, isTrue, Kind.isLiteral]
  · simp [ScopeTable.classOfOrigin, isFalse, Kind.isLiteral]

end Sides

/-! ## The parts of an assertion -/

theorem Method.ofName?_name (method : Method) : Method.ofName? method.name = some method := by
  cases method <;> rfl

theorem methodCall?_of_callsMethod {source : Source} {expression object argument : Cursor}
    {method : Method}
    (calls : CallsMethod contentChildren contentChildren source expression
      method.name object argument) :
    methodCall? source expression = some ⟨method, object, some argument⟩ := by
  obtain ⟨call, leads, isCall, ⟨callee, property, calleeFound, isMember, propertyFound, isName,
    nameEq, objectFound⟩, others, hasArguments, unspread⟩ := calls
  obtain rfl := (Cursor.withoutParentheses_eq_iff (by simp [isCall])).mpr leads
  have nameFound : callee.propertyName? source = some method.name :=
    Cursor.propertyName?_eq_some_iff.mpr ⟨isMember, property, propertyFound, isName, nameEq⟩
  have argumentsFound :
      expression.withoutParentheses.callArguments? = some (argument :: others) :=
    Cursor.callArguments?_eq_some_iff.mpr hasArguments
  simp [methodCall?, isCall, calleeFound, nameFound, Method.ofName?_name, objectFound,
    argumentsFound, isPlain_iff.mpr unspread]

theorem exists_methodCall?_of_isMatch {source : Source} {expression text pattern : Cursor}
    (isMatch : IsMatch contentChildren contentChildren source expression text
      pattern) :
    ∃ call, methodCall? source expression = some call ∧
      call.textAndPattern? = some (text, pattern) := by
  rcases isMatch with isTest | isFind | isSearch
  · exact ⟨⟨.test, pattern, some text⟩, methodCall?_of_callsMethod isTest, rfl⟩
  · exact ⟨⟨.find, text, some pattern⟩, methodCall?_of_callsMethod isFind, rfl⟩
  · exact ⟨⟨.search, text, some pattern⟩, methodCall?_of_callsMethod isSearch, rfl⟩

theorem exists_booleanEdits?_iff {file : File} {arguments : List Cursor} :
    (∃ edits, booleanEdits? file arguments = some edits) ↔
      ∃ first others text pattern, arguments = first :: others ∧
        IsMatch contentChildren contentChildren file.source first text pattern ∧
          file.scopes.classify pattern = .regex := by
  simp only [booleanEdits?, Option.bind_eq_bind, Option.bind_eq_some_iff]
  constructor
  · rintro ⟨edits, first, headFound, call, callFound, ⟨text, pattern⟩, parts, found⟩
    obtain ⟨others, rfl⟩ := List.head?_eq_some_iff.mp headFound
    simp only at found
    split at found
    next isRegex =>
      exact ⟨first, others, text, pattern, rfl, isMatch_of_textAndPattern? callFound parts,
        by simpa [ScopeTable.isRegex] using isRegex⟩
    next => simp at found
  · rintro ⟨first, others, text, pattern, rfl, isMatch, isRegex⟩
    obtain ⟨call, callFound, parts⟩ := exists_methodCall?_of_isMatch isMatch
    exact ⟨_, first, rfl, call, callFound, (text, pattern), parts,
      if_pos (by simp [ScopeTable.isRegex, isRegex])⟩

theorem replacementFor?_of_isOutcome {expected : Cursor} {replacement : Replacement}
    (isOutcome : IsOutcome contentChildren expected replacement) :
    replacementFor? expected = some replacement := by
  cases isOutcome with
  | true leads isTrue =>
      have reached := (Cursor.withoutParentheses_eq_iff (by simp [isTrue])).mpr leads
      simp [replacementFor?, reached, isTrue]
  | false leads isFalse =>
      have reached := (Cursor.withoutParentheses_eq_iff (by simp [isFalse])).mpr leads
      simp [replacementFor?, reached, isFalse]

theorem isRegex_ne_of_equalityEdits? {file : File} {first second : Cursor} {others : List Cursor}
    {result : Replacement × List Edit}
    (found : equalityEdits? file (first :: second :: others) = some result) :
    file.scopes.isRegex first ≠ file.scopes.isRegex second := by
  simp only [equalityEdits?, Option.bind_eq_bind, Option.bind_eq_some_iff] at found
  obtain ⟨sides, sidesFound, -⟩ := found
  unfold sides? at sidesFound
  split at sidesFound
  next firstEq secondEq => simp [firstEq, secondEq]
  next firstEq secondEq => simp [firstEq, secondEq]
  next => simp at sidesFound

/-- The edits of an equality whose match is on the side that counts as a regular
expression. -/
theorem exists_equalityEdits?_of_sides? {file : File} {first second matching expected : Cursor}
    {text pattern : Cursor} {others : List Cursor} {replacement : Replacement}
    (sides : sides? file first second = some (matching, expected))
    (isTest : CallsMethod contentChildren contentChildren file.source matching "test"
      pattern text)
    (isOutcome : IsOutcome contentChildren expected replacement) :
    ∃ result, equalityEdits? file (first :: second :: others) = some result := by
  have callFound : methodCall? file.source matching = some ⟨.test, pattern, some text⟩ :=
    methodCall?_of_callsMethod isTest
  simp [equalityEdits?, sides, replacementFor?_of_isOutcome isOutcome, callFound]

theorem exists_equalityEdits?_iff {source : Source} {tree : Node} {arguments : List Cursor}
    (lie : ∀ argument ∈ arguments, Cursor.LiesIn tree argument) :
    (∃ result, equalityEdits? (File.ofTree source tree) arguments = some result) ↔
      ∃ first second others text pattern replacement, arguments = first :: second :: others ∧
        ComparesMatch contentChildren contentChildren source first second text
          pattern replacement ∧
        (ScopeTable.ofTree source tree).classify pattern = .regex := by
  constructor
  · rintro ⟨⟨replacement, edits⟩, found⟩
    obtain ⟨first, second, others, text, pattern, rfl, compares, -⟩ :=
      exists_comparesMatch_of_equalityEdits? found
    have differ := isRegex_ne_of_equalityEdits? found
    rw [File.scopes_ofTree] at differ
    refine ⟨first, second, others, text, pattern, replacement, rfl, compares, ?_⟩
    have firstLies := lie first (by simp)
    have secondLies := lie second (by simp)
    have isRegex : (ScopeTable.ofTree source tree).isRegex pattern = true := by
      rcases compares with ⟨isTest, isOutcome⟩ | ⟨isTest, isOutcome⟩
      · rw [isRegex_of_isOutcome source secondLies isOutcome,
          isRegex_eq_of_callsMethod source firstLies isTest] at differ
        simpa using differ
      · rw [isRegex_of_isOutcome source firstLies isOutcome,
          isRegex_eq_of_callsMethod source secondLies isTest] at differ
        simpa using differ
    simpa [ScopeTable.isRegex] using isRegex
  · rintro ⟨first, second, others, text, pattern, replacement, rfl, compares, isRegex⟩
    have firstLies := lie first (by simp)
    have secondLies := lie second (by simp)
    have patternRegex : (ScopeTable.ofTree source tree).isRegex pattern = true := by
      simp [ScopeTable.isRegex, isRegex]
    rcases compares with ⟨isTest, isOutcome⟩ | ⟨isTest, isOutcome⟩
    · have firstRegex := isRegex_eq_of_callsMethod source firstLies isTest
      have secondOther := isRegex_of_isOutcome source secondLies isOutcome
      rw [patternRegex] at firstRegex
      have sidesEq : sides? (File.ofTree source tree) first second = some (first, second) := by
        simp [sides?, firstRegex, secondOther]
      exact exists_equalityEdits?_of_sides? sidesEq isTest isOutcome
    · have firstOther := isRegex_of_isOutcome source firstLies isOutcome
      have secondRegex := isRegex_eq_of_callsMethod source secondLies isTest
      rw [patternRegex] at secondRegex
      have sidesEq : sides? (File.ofTree source tree) first second = some (second, first) := by
        simp [sides?, firstOther, secondRegex]
      exact exists_equalityEdits?_of_sides? sidesEq isTest isOutcome

/-! ## The whole assertion -/

theorem Assertion.ofName?_of_assertsBoolean {name : String} {replacement : Replacement}
    (asserts : AssertsBoolean name replacement) :
    Assertion.ofName? name = some (.boolean replacement) := by
  cases asserts <;> rfl

theorem Assertion.ofName?_of_assertsEquality {name : String} (asserts : AssertsEquality name) :
    Assertion.ofName? name = some .equality := by
  cases asserts <;> rfl

section Assertion

variable {source : Source} {tree : Node}

/-- The arguments of an assertion can be rewritten exactly when they check a
match. -/
theorem exists_argumentEdits?_iff {name : String} {arguments : List Cursor}
    (lie : ∀ argument ∈ arguments, Cursor.LiesIn tree argument) :
    (∃ assertion result, Assertion.ofName? name = some assertion ∧
      argumentEdits? (File.ofTree source tree) assertion arguments = some result) ↔
      ChecksMatch contentChildren contentChildren (File.ofTree source tree) name arguments := by
  constructor
  · rintro ⟨assertion, result, named, found⟩
    cases assertion with
    | boolean replacement =>
        obtain ⟨edits, editsFound, -⟩ := Option.map_eq_some_iff.mp found
        obtain ⟨first, others, text, pattern, rfl, isMatch, isRegex⟩ :=
          exists_booleanEdits?_iff.mp ⟨edits, editsFound⟩
        exact .boolean (Assertion.ofName?_eq_some_boolean named) isMatch isRegex
    | equality =>
        obtain ⟨first, second, others, text, pattern, replacement, rfl, compares, isRegex⟩ :=
          (exists_equalityEdits?_iff lie).mp ⟨result, found⟩
        exact .equality (Assertion.ofName?_eq_some_equality named) compares isRegex
  · intro checks
    cases checks with
    | boolean asserts isMatch isRegex =>
        obtain ⟨edits, editsFound⟩ :=
          exists_booleanEdits?_iff.mpr ⟨_, _, _, _, rfl, isMatch, isRegex⟩
        exact ⟨_, _, Assertion.ofName?_of_assertsBoolean asserts,
          Option.map_eq_some_iff.mpr ⟨edits, editsFound, rfl⟩⟩
    | equality asserts compares isRegex =>
        obtain ⟨result, found⟩ :=
          (exists_equalityEdits?_iff lie).mpr ⟨_, _, _, _, _, _, rfl, compares, isRegex⟩
        exact ⟨.equality, result, Assertion.ofName?_of_assertsEquality asserts, found⟩

theorem rootName?_eq_some_iff {callee : Cursor} {name : String} :
    callee.rootName? source = some name ↔
      ∃ root, Reaches Cursor.object? callee root ∧ root.kind = .identifier ∧
        root.text source = name := by
  rw [Cursor.rootName?]
  constructor
  · intro named
    split at named
    next isName =>
      exact ⟨callee.rootObject, (mem_eval.mp callee.rootObject_mem_eval).1, isName,
        Option.some.inj named⟩
    next => simp at named
  · rintro ⟨root, leads, isName, textEq⟩
    rw [(Cursor.rootObject_eq_iff isName).mpr leads, if_pos isName, textEq]

/-- The replacement for a call that the rule reads as an assertion is decided by the
arguments. -/
theorem exists_replacement?_eq (file : File) {call : Cursor} {name : String}
    {assertion : Assertion} {arguments : List Cursor}
    (isReadAs : IsReadAs contentChildren file.source call name arguments)
    (named : Assertion.ofName? name = some assertion) :
    ∃ callee property,
      call.field? .callee = some callee ∧ callee.field? .property = some property ∧
        replacement? file call =
          (argumentEdits? file assertion arguments).map fun (replacement, edits) =>
            (replacement, replace property replacement.name :: edits) := by
  obtain ⟨callee, property, root, calleeFound, propertyFound, rfl, leads, isRoot, rootText⟩ :=
    isReadAs.callee
  have rooted : callee.rootName? file.source = some assertionObject :=
    rootName?_eq_some_iff.mpr ⟨root, leads, isRoot, rootText⟩
  have argumentsFound := Cursor.callArguments?_eq_some_iff.mpr isReadAs.list
  refine ⟨callee, property, calleeFound, propertyFound, ?_⟩
  simp only [replacement?, Option.bind_eq_bind, calleeFound, Option.bind_some, rooted, if_true,
    propertyFound, named, argumentsFound, isPlain_iff.mpr isReadAs.unspread]
  cases argumentEdits? file assertion arguments <;> rfl

/-- A call can be replaced exactly when it reads as an assertion on a match. -/
theorem exists_replacement?_iff {call : Cursor} (lies : Cursor.LiesIn tree call) :
    (∃ result, replacement? (File.ofTree source tree) call = some result) ↔
      AssertsMatch contentChildren contentChildren (File.ofTree source tree) call := by
  have argumentsLie {arguments : List Cursor} (found : call.callArguments? = some arguments) :
      ∀ argument ∈ arguments, Cursor.LiesIn tree argument := by
    obtain ⟨list, listFound, -, rfl⟩ := Cursor.callArguments?_eq_some_iff.mp found
    exact fun argument member => (lies.of_field? listFound).of_mem_children
      (Cursor.mem_children_of_mem_contentChildren member)
  constructor
  · rintro ⟨result, found⟩
    simp only [replacement?, Option.bind_eq_bind] at found
    obtain ⟨callee, calleeFound, found⟩ := Option.bind_eq_some_iff.mp found
    split at found
    next rooted =>
      obtain ⟨property, propertyFound, found⟩ := Option.bind_eq_some_iff.mp found
      obtain ⟨assertion, named, found⟩ := Option.bind_eq_some_iff.mp found
      obtain ⟨arguments, argumentsFound, found⟩ := Option.bind_eq_some_iff.mp found
      split at found
      next plain =>
        obtain ⟨edits, editsFound, -⟩ := Option.bind_eq_some_iff.mp found
        obtain ⟨root, leads, isRoot, rootText⟩ := rootName?_eq_some_iff.mp rooted
        refine ⟨property.text source, arguments, ?_, ?_⟩
        · exact
            { callee := ⟨callee, property, root, calleeFound, propertyFound, rfl, leads,
                isRoot, rootText⟩
              list := Cursor.callArguments?_eq_some_iff.mp argumentsFound
              unspread := isPlain_iff.mp plain }
        · exact (exists_argumentEdits?_iff (argumentsLie argumentsFound)).mp
            ⟨assertion, edits, named, editsFound⟩
      next => simp at found
    next => simp at found
  · rintro ⟨name, arguments, isReadAs, checks⟩
    have argumentsFound := Cursor.callArguments?_eq_some_iff.mpr isReadAs.list
    obtain ⟨assertion, edits, named, editsFound⟩ :=
      (exists_argumentEdits?_iff (argumentsLie argumentsFound)).mpr checks
    obtain ⟨callee, property, -, -, replacementEq⟩ :=
      exists_replacement?_eq (File.ofTree source tree) isReadAs named
    rw [replacementEq, editsFound]
    exact ⟨_, rfl⟩

end Assertion

/-- Whether the rule reports a call that it is handed. -/
def isReported (file : File) (call : Cursor) : Bool :=
  (replacement? file call).isSome && file.scopes.isInTest call

/-- The rule makes one report about a call or none. -/
theorem map_node_respond (file : File) (call : Cursor) :
    (respond file call).map Report.node = if isReported file call then [call] else [] := by
  unfold respond isReported
  cases replacement? file call with
  | none => rfl
  | some result =>
      cases inTest : file.scopes.isInTest call with
      | false => simp
      | true => simp [ScopeTable.isTestFile_of_isInTest inTest]

end RegexAssertion

end AssertLint
