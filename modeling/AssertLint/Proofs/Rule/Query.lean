import AssertLint.Linter
import AssertLint.Proofs.Text.Sorted
import AssertLint.Proofs.Tree.Cursor
import AssertLint.Rule.RegexAssertion
import Mathlib.Data.List.Basic

/-!
# The query of the rule on regular expressions

The text of the query spells a description of calls whose callee is a member
access with one of six property names.  A reader that knows the language of queries
hands the rule these calls and nothing else.  This file says what that means and
proves it of the reader of this library: it gives the description as data and shows
that the text spells it.
-/

namespace AssertLint

namespace RegexAssertion

/-- The names of the assertions that the rule looks at. -/
def assertionNames : List String := ["true", "false", "truthy", "falsy", "is", "deepEqual"]

/-- A call meets the query: some callee of it is a member access, and some property
there has one of the names. -/
def IsDescribed (source : Source) (call : Cursor) : Prop :=
  call.kind = .callExpression ∧
    ∃ callee ∈ call.childrenIn .callee,
      callee.kind = .memberExpression ∧
        ∃ property ∈ callee.childrenIn .property,
          property.kind = .propertyIdentifier ∧ property.text source ∈ assertionNames

/-- What the query of the rule captures in a tree: the calls that it describes, in any
order and as often as they meet it, with the captures of one call side by side. -/
def CapturesDescribed (source : Source) (tree : Node) (captured : List Cursor) : Prop :=
  ∃ (calls : List Cursor) (times : Cursor → Nat),
    (calls.map Cursor.address).Nodup ∧
    (∀ node, node ∈ calls ↔ node ∈ tree.cursors ∧ IsDescribed source node) ∧
    (∀ call ∈ calls, 0 < times call) ∧
    captured = calls.flatMap fun call => List.replicate (times call) call

/-- A reader takes the text of the query for what it spells. -/
structure ReadsRule (reader : QueryReader) (read : ReadQuery) : Prop where
  reads : reader query = .ok read
  hasCapture : "call_expression" ∈ read.captureNames
  captures : ∀ source tree,
    CapturesDescribed source tree (read.capturedNodes source tree "call_expression")

/-- The listener of the rule, with its query read. -/
def compiledListener (read : ReadQuery) : CompiledListener :=
  ⟨info, 0, respond, read, "call_expression"⟩

namespace ReadsRule

variable {reader : QueryReader} {read : ReadQuery}

/-- The rule compiles to its one listener. -/
theorem compileAll_rule (readsRule : ReadsRule reader read) :
    Linter.compileAll reader [rule] = .ok [compiledListener read] := by
  have listened : Linter.listenedCapture? read (some "call_expression") =
      some "call_expression" := by
    simp [Linter.listenedCapture?, readsRule.hasCapture]
  simp [Linter.compileAll, rule, Linter.compileFrom, Linter.compileListener, readsRule.reads,
    listened, compiledListener, bind, Except.bind, pure, Except.pure]

/-- The rule is handed the calls of the tree that the query describes. -/
theorem mem_capturedNodes_iff (readsRule : ReadsRule reader read) {source : Source} {tree : Node}
    {node : Cursor} :
    node ∈ read.capturedNodes source tree "call_expression" ↔
      node ∈ tree.cursors ∧ IsDescribed source node := by
  obtain ⟨calls, times, -, isCall, repeated, captured⟩ := readsRule.captures source tree
  rw [captured, ← isCall, List.mem_flatMap]
  constructor
  · rintro ⟨call, member, copies⟩
    rwa [List.eq_of_mem_replicate copies]
  · intro member
    exact ⟨node, member, List.mem_replicate.mpr ⟨Nat.ne_of_gt (repeated node member), rfl⟩⟩

theorem mem_cursors (readsRule : ReadsRule reader read) {source : Source} {tree : Node}
    {call : Cursor} (captured : call ∈ read.capturedNodes source tree "call_expression") :
    call ∈ tree.cursors ∧ call.kind = .callExpression := by
  obtain ⟨inTree, described⟩ := readsRule.mem_capturedNodes_iff.mp captured
  exact ⟨inTree, described.1⟩

end ReadsRule

/-! ## The query as data -/

/-- The pattern for a word. -/
def wordPattern (word : String) : TextPattern :=
  word.toList.foldr (fun character rest => .sequence (.literal character) rest) .empty

/-- The pattern for one of the assertions that the rule looks at. -/
def assertionPattern : TextPattern :=
  .sequence .textStart
    (.sequence
      (.either (wordPattern "true") (.either (wordPattern "false")
        (.either (wordPattern "truthy") (.either (wordPattern "falsy")
          (.either (wordPattern "is") (wordPattern "deepEqual"))))))
      (.sequence .textEnd .empty))

/-- The description of a call of a property. -/
def callPattern : Query.Pattern :=
  .node (some .callExpression) none
    [.node (some .memberExpression) (some .callee)
      [.node (some .propertyIdentifier) (some .property) [] ["assertion"] 86] [] 41]
    ["call_expression"] 0

/-- The query of the rule as data. -/
def callQuery : Query :=
  ⟨[(some callPattern, [.matchesPattern "assertion" assertionPattern])],
    ["assertion", "call_expression"]⟩

private theorem eq_ok_of_toOption {ε α : Type} {result : Except ε α} {value : α}
    (isValue : result.toOption = some value) : result = .ok value := by
  cases result with
  | error problem => simp [Except.toOption] at isValue
  | ok value' => exact congrArg Except.ok (Option.some.inj isValue)

private theorem compile_eq_ok {text : String} {characters : List Char} {spelled : Query}
    (written : text.toList = characters)
    (read : (Query.ofCharacters characters).toOption = some spelled) :
    Query.compile text = .ok spelled := by
  rw [Query.compile, written]
  exact eq_ok_of_toOption read

/-- The text of the query spells the query. -/
theorem compile_query : Query.compile query = .ok callQuery :=
  compile_eq_ok String.toList_join (by decide +kernel)

/-! ## The names that the query accepts -/

section Names

variable {length : Nat} {pattern : TextPattern}

theorem remainders_literal_cons (character first : Char) (rest : List Char) :
    (TextPattern.literal character).remainders length (first :: rest) =
      if first = character then [rest] else [] := by
  have sameCharacter : TextPattern.inRanges [(character, character)] first =
      decide (first = character) := by
    rw [TextPattern.inRanges, Bool.eq_iff_iff]
    simp only [List.any_cons, List.any_nil, Bool.or_false, Bool.and_eq_true, decide_eq_true_eq]
    exact ⟨fun between => Char.le_antisymm between.2 between.1,
      fun same => same ▸ ⟨Char.le_refl _, Char.le_refl _⟩⟩
  simp [TextPattern.literal, TextPattern.remainders, sameCharacter]

/-- The pattern for a word takes the word off the front of a text. -/
theorem mem_remainders_wordPattern_iff {word : String} {text rest : List Char} :
    rest ∈ (wordPattern word).remainders length text ↔ text = word.toList ++ rest := by
  rw [wordPattern]
  induction word.toList generalizing text with
  | nil => simp [TextPattern.remainders, eq_comm]
  | cons character characters ih =>
      cases text with
      | nil => simp [TextPattern.remainders, TextPattern.literal]
      | cons first others =>
          rw [List.foldr_cons, TextPattern.remainders, remainders_literal_cons]
          by_cases same : first = character
          · simp [same, ih]
          · simp [same]

/-- A pattern for the start of a text does not match behind the start. -/
theorem matchesFrom_textStart_of_lt {text : List Char} (shorter : text.length < length) :
    TextPattern.matchesFrom length (.sequence .textStart pattern) text = false := by
  have behind {text : List Char} (shorter : text.length < length) :
      TextPattern.remainders length (.sequence .textStart pattern) text = [] := by
    rw [TextPattern.remainders, TextPattern.remainders, if_neg (Nat.ne_of_lt shorter),
      List.flatMap_nil]
  induction text with
  | nil => rw [TextPattern.matchesFrom, behind shorter]; rfl
  | cons character rest ih =>
      rw [TextPattern.matchesFrom, behind shorter, ih (Nat.lt_of_succ_lt shorter)]
      rfl

/-- A pattern between the ends of a text matches if it can take off all of it. -/
theorem matchesText_between_ends_iff {text : String} :
    TextPattern.matchesText
        (.sequence .textStart (.sequence pattern (.sequence .textEnd .empty))) text = true ↔
      [] ∈ pattern.remainders text.toList.length text.toList := by
  rw [TextPattern.matchesText]
  have atFront : ¬ (TextPattern.remainders text.toList.length
      (.sequence .textStart (.sequence pattern (.sequence .textEnd .empty)))
        text.toList).isEmpty = true ↔ [] ∈ pattern.remainders text.toList.length text.toList := by
    simp [TextPattern.remainders]
  cases written : text.toList with
  | nil =>
      rw [written] at atFront
      simpa [TextPattern.matchesFrom] using atFront
  | cons character rest =>
      rw [written] at atFront
      rw [TextPattern.matchesFrom, matchesFrom_textStart_of_lt (by simp), Bool.or_false]
      simpa using atFront

/-- The pattern of the query accepts the names of the assertions and no other text. -/
theorem matchesText_assertionPattern_iff {name : String} :
    assertionPattern.matchesText name = true ↔ name ∈ assertionNames := by
  rw [assertionPattern, matchesText_between_ends_iff]
  simp only [TextPattern.remainders, List.mem_append, mem_remainders_wordPattern_iff,
    List.append_nil, String.toList_inj, assertionNames, List.mem_cons, List.not_mem_nil, or_false]

end Names

/-! ## The calls that meet the query -/

theorem exists_mem_withFollowing_iff {α : Type} {entry : α} {entries : List α} :
    (∃ following, (entry, following) ∈ Query.withFollowing entries) ↔ entry ∈ entries := by
  induction entries with
  | nil => simp [Query.withFollowing]
  | cons first rest ih =>
      simp only [Query.withFollowing, List.mem_cons, Prod.mk.injEq, exists_or, ih]
      simp

/-- The ways in which a node meets the description: it is a call, its callee is a
member access, and the way captures the call and the name of the property. -/
theorem mem_waysAt_callPattern_iff {cursor : Cursor} {way : Query.Captures} :
    way ∈ callPattern.waysAt cursor ↔
      cursor.kind = .callExpression ∧
        ∃ callee ∈ cursor.namedChildren,
          callee.kind = .memberExpression ∧ callee.node.field = some .callee ∧
            ∃ property ∈ callee.namedChildren,
              property.kind = .propertyIdentifier ∧ property.node.field = some .property ∧
                way = [("call_expression", cursor), ("assertion", property)] := by
  simp only [callPattern, Query.Pattern.waysAt, Query.Pattern.waysAmong, Query.isOfKind,
    Query.standsIn]
  by_cases isCall : cursor.kind = .callExpression
  · simp only [isCall, decide_true, Bool.and_self, if_true, List.map_cons, List.map_nil,
      List.cons_append, List.nil_append, List.append_nil, Bool.and_eq_true,
      decide_eq_true_eq, List.flatMap_singleton', List.map_id_fun', id_eq, List.mem_map,
      List.mem_flatMap, List.mem_ite_nil_right, List.mem_cons, List.not_mem_nil, or_false,
      Prod.exists, exists_and_right, exists_mem_withFollowing_iff, true_and]
    constructor
    · rintro ⟨_, ⟨callee, calleeMem, ⟨isMember, isCallee⟩, property, propertyMem,
        ⟨isName, isProperty⟩, rfl⟩, rfl⟩
      exact ⟨callee, calleeMem, isMember, isCallee, property, propertyMem, isName,
        isProperty, rfl⟩
    · rintro ⟨callee, calleeMem, isMember, isCallee, property, propertyMem, isName,
        isProperty, rfl⟩
      exact ⟨_, ⟨callee, calleeMem, ⟨isMember, isCallee⟩, property, propertyMem,
        ⟨isName, isProperty⟩, rfl⟩, rfl⟩
  · simp [isCall]

/-- The ways in which a node meets the query. -/
def waysThrough (source : Source) (cursor : Cursor) : List Query.Captures :=
  (callPattern.waysAt cursor).filter fun way =>
    [Query.Condition.matchesPattern "assertion" assertionPattern].all
      (Query.Condition.holds source way)

theorem mem_waysThrough_iff {source : Source} {cursor : Cursor} {way : Query.Captures} :
    way ∈ waysThrough source cursor ↔
      cursor.kind = .callExpression ∧
        ∃ callee ∈ cursor.namedChildren,
          callee.kind = .memberExpression ∧ callee.node.field = some .callee ∧
            ∃ property ∈ callee.namedChildren,
              property.kind = .propertyIdentifier ∧ property.node.field = some .property ∧
                assertionPattern.matchesText (property.text source) = true ∧
                  way = [("call_expression", cursor), ("assertion", property)] := by
  rw [waysThrough, List.mem_filter, mem_waysAt_callPattern_iff]
  constructor
  · rintro ⟨⟨isCall, callee, calleeMem, isMember, isCallee, property, propertyMem, isName,
      isProperty, rfl⟩, holds⟩
    refine ⟨isCall, callee, calleeMem, isMember, isCallee, property, propertyMem, isName,
      isProperty, ?_, rfl⟩
    simpa [Query.Condition.holds, Query.capturedTexts] using holds
  · rintro ⟨isCall, callee, calleeMem, isMember, isCallee, property, propertyMem, isName,
      isProperty, spelled, rfl⟩
    refine ⟨⟨isCall, callee, calleeMem, isMember, isCallee, property, propertyMem, isName,
      isProperty, rfl⟩, ?_⟩
    simpa [Query.Condition.holds, Query.capturedTexts] using spelled

theorem length_waysThrough_pos_iff {source : Source} {cursor : Cursor} :
    0 < (waysThrough source cursor).length ↔ IsDescribed source cursor := by
  rw [List.length_pos_iff_exists_mem]
  simp only [mem_waysThrough_iff, matchesText_assertionPattern_iff, IsDescribed]
  -- A child of one of these kinds is a named one.
  have named {parent child : Cursor} {kind : Kind} (member : child ∈ parent.children)
      (isKind : child.kind = kind) (kindNamed : kind.isNamed = true) :
      child ∈ parent.namedChildren :=
    List.mem_filter.mpr ⟨member, by rw [Cursor.isNamed, isKind, kindNamed]⟩
  constructor
  · rintro ⟨way, isCall, callee, calleeMem, isMember, isCallee, property, propertyMem, isName,
      isProperty, spelled, -⟩
    exact ⟨isCall, callee, Cursor.mem_childrenIn_iff.mpr ⟨(List.mem_filter.mp calleeMem).1,
      isCallee⟩, isMember, property, Cursor.mem_childrenIn_iff.mpr
        ⟨(List.mem_filter.mp propertyMem).1, isProperty⟩, isName, spelled⟩
  · rintro ⟨isCall, callee, calleeMem, isMember, property, propertyMem, isName, spelled⟩
    obtain ⟨calleeMem, isCallee⟩ := Cursor.mem_childrenIn_iff.mp calleeMem
    obtain ⟨propertyMem, isProperty⟩ := Cursor.mem_childrenIn_iff.mp propertyMem
    exact ⟨_, isCall, callee, named calleeMem isMember rfl, isMember, isCallee, property,
      named propertyMem isName rfl, isName, isProperty, spelled, rfl⟩

/-- The query captures a call once for every way to meet it, in the order of the
tree. -/
theorem capturedNodes_eq (source : Source) (tree : Node) :
    callQuery.capturedNodes source tree "call_expression" =
      tree.cursors.flatMap fun cursor =>
        List.replicate (waysThrough source cursor).length cursor := by
  rw [Query.capturedNodes]
  apply List.flatMap_congr
  intro cursor _
  have capturedOnce : ∀ way ∈ waysThrough source cursor,
      (way.filter (·.1 = "call_expression")).map Prod.snd = [cursor] := by
    intro way member
    obtain ⟨-, callee, -, -, -, property, -, -, -, -, rfl⟩ := mem_waysThrough_iff.mp member
    rfl
  calc callQuery.clauses.flatMap _
      = (waysThrough source cursor).flatMap fun way =>
          (way.filter (·.1 = "call_expression")).map Prod.snd := by
        simp [callQuery, waysThrough]
    _ = (waysThrough source cursor).flatMap fun _ => [cursor] :=
        List.flatMap_congr capturedOnce
    _ = List.replicate (waysThrough source cursor).length cursor := by
        rw [← List.map_eq_flatMap, List.map_const']

/-- The reader of this library takes the text of the query for what it spells. -/
theorem readsRule_reader : ReadsRule Query.reader callQuery.asRead where
  reads := by
    rw [Query.reader, compile_query]
    rfl
  hasCapture := by simp [Query.asRead, callQuery]
  captures source tree := by
    refine ⟨tree.cursors.filter fun node => 0 < (waysThrough source node).length,
      fun node => (waysThrough source node).length, ?_, ?_, ?_, ?_⟩
    · exact ((List.filter_sublist).map Cursor.address).nodup (Cursor.nodup_address_cursors tree)
    · intro node
      rw [List.mem_filter, decide_eq_true_eq, length_waysThrough_pos_iff]
    · intro call member
      simpa using (List.mem_filter.mp member).2
    · change callQuery.capturedNodes source tree "call_expression" = _
      rw [capturedNodes_eq, ← filter_flatMap_replicate, eq_comm, List.filter_eq_self]
      intro node member
      obtain ⟨call, -, copies⟩ := List.mem_flatMap.mp member
      obtain ⟨someWay, rfl⟩ := List.mem_replicate.mp copies
      simpa using Nat.pos_of_ne_zero someWay

end RegexAssertion

end AssertLint
