import AssertLint.Proofs.Value.Tracing

/-!
# Classes along the chain

The class of an expression is read off its origin and nothing else, so the
expressions that a chain leads through have one class as long as they have one
origin.  The exception is a name whose initializer leads back to the name: the two
enter the circle at different places and may stop at different names.
-/

namespace AssertLint

namespace ScopeTable

/-- A value with this origin is a regular expression: the origin is a literal of one, or
the name of the constructor. -/
def IsRegexOrigin (source : Source) (origin : Cursor) : Prop :=
  origin.kind = .regexLiteral ∨ origin.kind = .identifier ∧ origin.text source = "RegExp"

section Origins

variable (table : ScopeTable) (origin : Cursor)

theorem classOfOrigin_eq_regex_iff :
    table.classOfOrigin origin = .regex ↔ IsRegexOrigin table.source origin := by
  unfold classOfOrigin IsRegexOrigin text regexConstructor
  split_ifs with isRegex isConstructor <;> simp [*]

theorem classOfOrigin_eq_notRegex_iff :
    table.classOfOrigin origin = .notRegex ↔
      origin.kind.isLiteral ∧ origin.kind ≠ .regexLiteral := by
  unfold classOfOrigin
  split_ifs with isRegex isConstructor isLiteral
  · simp [isRegex]
  · simp [isConstructor.1, Kind.isLiteral]
  · simp [isRegex, isLiteral]
  · simp [isLiteral]

theorem classOfOrigin_eq_unknown_iff :
    table.classOfOrigin origin = .unknown ↔
      ¬ IsRegexOrigin table.source origin ∧ ¬ origin.kind.isLiteral := by
  rw [← classOfOrigin_eq_regex_iff]
  unfold classOfOrigin
  split_ifs with isRegex isConstructor isLiteral <;> simp [*]

end Origins

/-- Two expressions have one origin and one class. -/
structure SharesOrigin (table : ScopeTable) (cursor other : Cursor) : Prop where
  sameOrigin : table.origin cursor = table.origin other
  sameClass : table.classify? (some cursor) = table.classify? (some other)

theorem sharesOrigin_of_origin_eq {source : Source} {tree : Node} {cursor other : Cursor}
    (lies : Cursor.LiesIn tree cursor) (otherLies : Cursor.LiesIn tree other)
    (sameOrigin : (ofTree source tree).origin cursor = (ofTree source tree).origin other) :
    (ofTree source tree).SharesOrigin cursor other := by
  refine ⟨sameOrigin, ?_⟩
  rw [classify?, classify?, classify_eq lies, classify_eq otherLies, sameOrigin]

/-- An expression is classified by its origin alone, and the next expression of its
chain has the same origin and class, unless it leads back to a name that it was taken
from. -/
structure IsClassifiedByOrigin (table : ScopeTable) (source : Source) (cursor : Cursor) :
    Prop where
  byOrigin : table.classify? (some cursor) = table.classOfOrigin (table.origin cursor)
  regex_iff : table.classify? (some cursor) = .regex ↔
    IsRegexOrigin source (table.origin cursor)
  notRegex_iff : table.classify? (some cursor) = .notRegex ↔
    (table.origin cursor).kind.isLiteral ∧ (table.origin cursor).kind ≠ .regexLiteral
  unknown_iff : table.classify? (some cursor) = .unknown ↔
    ¬ IsRegexOrigin source (table.origin cursor) ∧ ¬ (table.origin cursor).kind.isLiteral
  expression : ∀ next, table.source? cursor = some next →
    cursor.kind ∈ [.parenthesizedExpression, .callExpression, .newExpression,
      .memberExpression] → table.SharesOrigin cursor next
  rootObject : table.SharesOrigin cursor cursor.rootObject
  name : ∀ value, table.initializer? cursor = some value → cursor.kind = .identifier →
    (∀ steps, table.sourceAfter? value steps ≠ some cursor) → table.SharesOrigin cursor value

theorem isClassifiedByOrigin_of_mem_cursors (source : Source) {tree : Node} {cursor : Cursor}
    (inTree : cursor ∈ tree.cursors) :
    (ofTree source tree).IsClassifiedByOrigin source cursor := by
  have lies := Cursor.mem_cursors_iff.mp inTree
  have byOrigin : (ofTree source tree).classify? (some cursor) =
      (ofTree source tree).classOfOrigin ((ofTree source tree).origin cursor) := classify_eq lies
  constructor
  case byOrigin => exact byOrigin
  case regex_iff => rw [byOrigin, classOfOrigin_eq_regex_iff, source_ofTree]
  case notRegex_iff => rw [byOrigin, classOfOrigin_eq_notRegex_iff]
  case unknown_iff => rw [byOrigin, classOfOrigin_eq_unknown_iff, source_ofTree]
  case expression =>
    intro next found isExpression
    have notName : cursor.kind ≠ .identifier := by
      intro isName
      simp [isName] at isExpression
    exact sharesOrigin_of_origin_eq lies (liesIn_source? lies found)
      (origin_eq_of_source? lies notName found)
  case rootObject =>
    exact sharesOrigin_of_origin_eq lies lies.rootObject (origin_rootObject lies).symm
  case name =>
    intro value found isName noReturn
    exact sharesOrigin_of_origin_eq lies (liesIn_initializer? found)
      (origin_eq_of_initializer? lies isName found noReturn).symm

theorem eq_zero_of_sourceAfter? {table : ScopeTable} {start cursor : Cursor} {steps : Nat}
    (isEnd : table.source? start = none)
    (found : table.sourceAfter? start steps = some cursor) : steps = 0 := by
  induction steps generalizing cursor with
  | zero => rfl
  | succ steps ih =>
      obtain ⟨middle, middleFound, step⟩ := Option.bind_eq_some_iff.mp found
      obtain rfl := ih middleFound
      obtain rfl := Option.some.inj middleFound
      simp [isEnd] at step

/-- The text `var r=/x/;(r.y)`. -/
def aliasText : Source := "var r=/x/;(r.y)".toList

/-- The tree of the text. -/
def aliasTree : Node :=
  .ofChildren .program 0 15
    [.ofChildren .variableDeclaration 0 10
      [.ofChildren .variableDeclarator 4 9
        [Node.inField (.leaf .identifier 4 5) .name,
          Node.inField (.leaf .regexLiteral 6 9) .value]],
      .ofChildren .expressionStatement 10 15
        [.ofChildren .parenthesizedExpression 10 15
          [.ofChildren .memberExpression 11 14
            [Node.inField (.leaf .identifier 11 12) .object,
              Node.inField (.leaf .propertyIdentifier 13 14) .property]]]]

/-- The use of the name, which is initialized with a literal. -/
def aliasUse : Cursor :=
  (aliasTree.cursors.find? fun cursor => cursor.span = ⟨11, 12⟩).getD (Cursor.root aliasTree)

/-- The literal that the name is initialized with. -/
def aliasValue : Cursor :=
  (aliasTree.cursors.find? fun cursor => cursor.kind = .regexLiteral).getD (Cursor.root aliasTree)

theorem aliasUse_isClassifiedByOrigin :
    (ofTree aliasText aliasTree).IsClassifiedByOrigin aliasText aliasUse ∧
      (ofTree aliasText aliasTree).SharesOrigin aliasUse aliasValue ∧
      (ofTree aliasText aliasTree).classify? (some aliasUse) = .regex := by
  have inTree : aliasUse ∈ aliasTree.cursors :=
    List.mem_of_find?_eq_some (p := fun cursor => cursor.span = ⟨11, 12⟩) rfl
  have classified := isClassifiedByOrigin_of_mem_cursors aliasText inTree
  have noReturn : ∀ steps,
      (ofTree aliasText aliasTree).sourceAfter? aliasValue steps ≠ some aliasUse := by
    intro steps comesBack
    obtain rfl : steps = 0 := eq_zero_of_sourceAfter? rfl comesBack
    exact absurd (congrArg (Option.map Cursor.kind) comesBack) (by decide +kernel)
  exact ⟨classified, classified.name aliasValue rfl rfl noReturn, by decide +kernel⟩

end ScopeTable

end AssertLint
