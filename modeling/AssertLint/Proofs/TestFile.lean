import AssertLint.Proofs.Scope.Filing
import AssertLint.Proofs.Value.Reading
import AssertLint.TestFile

/-!
# Tests and the functions that start them

A test is a function handed to a call of the test function.  This file says what
that means in terms of the tree and of the variables of the program, and shows
that the answers computed for a node agree with it, as far as no aside obscures what
they are computed from.
-/

namespace AssertLint

open StateTransition

/-! ## The test module -/

/-- An expression is the string that names the test module, written without
escapes. -/
structure NamesTestModule (source : Source) (expression : Cursor) : Prop where
  isString : expression.kind = .stringLiteral
  fragment : ∃ part, expression.mainChildren = [part] ∧ part.kind = .stringFragment ∧
    part.text source = testModule

namespace Cursor

/-- A call of the function that loads modules, with a first argument that names the test
module. -/
structure CallsLoader (source : Source) (call list first : Cursor) : Prop where
  isCall : call.kind = .callExpression
  callee : ∃ callee, call.field? .callee = some callee ∧ callee.kind = .identifier ∧
    callee.text source = loadFunction
  hasList : call.field? .arguments = some list
  isList : list.kind = .arguments
  isFirst : list.mainChildren.head? = some first
  names : NamesTestModule source first

/-- A value loads the test module: it is, up to parentheses, a call of the function that
loads modules, and the first argument names the test module. -/
def LoadsTestModule (source : Source) (value : Cursor) : Prop :=
  ∃ call list first, Reaches (inParentheses? mainChildren) value call ∧
    CallsLoader source call list first

/-- An aside obscures what a value loads: it comes first in parentheses around the call or
in the list of its arguments, or it stands in the first argument. -/
inductive IsLoadObscured (value : Cursor) : Prop where
  | parentheses (obscured : value.IsObscured (inParentheses? mainChildren))
  | arguments {call list : Cursor} (leads : Reaches (inParentheses? mainChildren) value call)
      (isCall : call.kind = .callExpression) (hasList : call.field? .arguments = some list)
      (starts : list.StartsWithAside)
  | module {call list first : Cursor}
      (leads : Reaches (inParentheses? mainChildren) value call)
      (isCall : call.kind = .callExpression) (hasList : call.field? .arguments = some list)
      (isFirst : list.mainChildren.head? = some first) (holds : first.HoldsAside)

end Cursor

/-- A definition brings in the test function: it imports the default of the test
module, or it declares a variable whose value loads the module. -/
inductive BringsInTestFunction (source : Source) (definition : Definition) : Prop where
  | imported {statement module : Cursor} (isImport : definition.type = .importedName)
      (isDefault : definition.node.kind = .identifier)
      (parentEq : definition.parent = some statement)
      (isStatement : statement.kind = .importStatement)
      (hasModule : statement.field? .source = some module)
      (names : NamesTestModule source module)
  | loaded {value : Cursor} (isVariable : definition.type = .declaredVariable)
      (hasValue : definition.initializer? = some value) (loads : value.LoadsTestModule source)

/-- An aside obscures the module that a definition brings in. -/
inductive Definition.IsObscured (definition : Definition) : Prop where
  | imported {statement module : Cursor} (isImport : definition.type = .importedName)
      (parentEq : definition.parent = some statement)
      (hasModule : statement.field? .source = some module) (holds : module.HoldsAside)
  | loaded {value : Cursor} (isVariable : definition.type = .declaredVariable)
      (hasValue : definition.initializer? = some value) (obscured : value.IsLoadObscured)

namespace ScopeTable

variable {table : ScopeTable}

theorem namesTestModule_iff_contents {expression : Cursor} :
    table.namesTestModule expression = true ↔
      expression.kind = .stringLiteral ∧ ∃ part, expression.contentChildren = [part] ∧
        part.kind = .stringFragment ∧ part.text table.source = testModule := by
  have notEmpty : "" ≠ testModule := by decide
  rw [namesTestModule, decide_eq_true_eq, Cursor.plainString?]
  split
  next isString =>
    split
    next noParts =>
      constructor
      · intro named
        exact absurd (Option.some.inj named) notEmpty
      · rintro ⟨-, part, parts, -⟩
        simp [noParts] at parts
    next part parts =>
      constructor
      · intro named
        split at named
        · exact ⟨isString, part, parts, ‹_›, Option.some.inj named⟩
        · simp at named
      · rintro ⟨-, part', parts', isFragment, textEq⟩
        obtain rfl : part = part' := by simpa [parts] using parts'
        rw [if_pos isFragment, textEq]
    next severalParts =>
      constructor
      · simp
      · rintro ⟨-, part, parts, -⟩
        exact absurd parts (severalParts part)
  next notString =>
    constructor
    · simp
    · rintro ⟨isString, -⟩
      exact absurd isString notString

theorem namesTestModule_iff {expression : Cursor} :
    table.namesTestModule expression = true ↔
      NamesTestModule table.source expression ∧ ¬ expression.HoldsAside := by
  rw [namesTestModule_iff_contents]
  constructor
  · rintro ⟨isString, part, parts, isFragment, textEq⟩
    have noAside : ¬ expression.HoldsAside := by
      rintro ⟨child, member, isAside⟩
      rw [parts, List.mem_singleton] at member
      rw [member, isFragment] at isAside
      contradiction
    have mainParts := (Cursor.mainChildren_of_not_holdsAside noAside).trans parts
    exact ⟨⟨isString, part, mainParts, isFragment, textEq⟩, noAside⟩
  · rintro ⟨⟨isString, part, mainParts, isFragment, textEq⟩, noAside⟩
    have parts := (Cursor.mainChildren_of_not_holdsAside noAside).symm.trans mainParts
    exact ⟨isString, part, parts, isFragment, textEq⟩

theorem loadsTestModule_iff_contents {value : Cursor} :
    table.loadsTestModule value = true ↔
      ∃ call list first, Reaches Cursor.parenthesizedContent? value call ∧
        call.kind = .callExpression ∧
        (∃ callee, call.field? .callee = some callee ∧ callee.kind = .identifier ∧
          callee.text table.source = loadFunction) ∧
        call.field? .arguments = some list ∧ list.kind = .arguments ∧
        list.contentChildren.head? = some first ∧ table.namesTestModule first = true := by
  have isLoader : table.loadsTestModule value = true ↔
      value.withoutParentheses.kind = .callExpression ∧
        (∃ callee, value.withoutParentheses.field? .callee = some callee ∧
          callee.kind = .identifier ∧ callee.text table.source = loadFunction) ∧
        ∃ list first, value.withoutParentheses.field? .arguments = some list ∧
          list.kind = .arguments ∧ list.contentChildren.head? = some first ∧
          table.namesTestModule first = true := by
    rw [loadsTestModule]
    simp only [Bool.and_eq_true, decide_eq_true_eq, and_assoc]
    apply and_congr_right
    intro _
    apply and_congr
    · cases value.withoutParentheses.field? .callee with
      | none => simp
      | some callee =>
          simp only [Bool.and_eq_true, decide_eq_true_eq, Option.some.injEq, exists_eq_left']
          exact Iff.rfl
    · rw [Cursor.callArguments?]
      cases value.withoutParentheses.field? .arguments with
      | none => simp
      | some list =>
          by_cases isList : list.kind = .arguments
          · cases contents : list.contentChildren <;> simp [isList, contents]
          · simp [isList]
  rw [isLoader]
  constructor
  · rintro ⟨isCall, callee, list, first, argument⟩
    exact ⟨value.withoutParentheses, list, first,
      (mem_eval.mp value.withoutParentheses_mem_eval).1, isCall, callee, argument⟩
  · rintro ⟨call, list, first, leads, isCall, callee, argument⟩
    obtain rfl := (Cursor.withoutParentheses_eq_iff (by simp [isCall])).mpr leads
    exact ⟨isCall, callee, list, first, argument⟩

/-- A value is found to load the test module if it does and no aside obscures it. -/
theorem loadsTestModule_iff {value : Cursor} :
    table.loadsTestModule value = true ↔
      value.LoadsTestModule table.source ∧ ¬ value.IsLoadObscured := by
  rw [loadsTestModule_iff_contents]
  constructor
  · rintro ⟨call, list, first, leads, isCall, callee, hasList, isList, isFirst, named⟩
    obtain ⟨names, noAside⟩ := namesTestModule_iff.mp named
    have isPart : first.kind.isAside = false := by
      rw [names.isString]
      rfl
    have isBare : call.kind ≠ .parenthesizedExpression := by simp [isCall]
    obtain ⟨mainLeads, clear⟩ :=
      (Cursor.reaches_parenthesizedContent?_iff (by rw [isCall]; rfl) isBare).mp leads
    have mainFirst := Cursor.head?_mainChildren_of_head? isFirst isPart
    refine ⟨⟨call, list, first, mainLeads, isCall, callee, hasList, isList, mainFirst, names⟩, ?_⟩
    -- Every way to a call leads to this one, with the same list and first argument.
    have same {call' list' : Cursor}
        (leads' : Reaches (Cursor.inParentheses? Cursor.mainChildren) value call')
        (isCall' : call'.kind = .callExpression)
        (hasList' : call'.field? .arguments = some list') : list = list' := by
      obtain rfl := Cursor.eq_of_reaches_inParentheses? mainLeads leads' isBare (by simp [isCall'])
      exact Option.some.inj (hasList.symm.trans hasList')
    rintro (obscured | ⟨leads', isCall', hasList', starts⟩ |
      ⟨leads', isCall', hasList', isFirst', holds⟩)
    · exact clear obscured
    · obtain rfl := same leads' isCall' hasList'
      exact Cursor.not_startsWithAside isFirst isPart starts
    · obtain rfl := same leads' isCall' hasList'
      obtain rfl := Option.some.inj (mainFirst.symm.trans isFirst')
      exact noAside holds
  · rintro ⟨⟨call, list, first, leads, isCall, callee, hasList, isList, isFirst, names⟩, clear⟩
    have readLeads := (Cursor.reaches_parenthesizedContent?_iff (by rw [isCall]; rfl)
      (by simp [isCall])).mpr ⟨leads, fun obscured => clear (.parentheses obscured)⟩
    have notFirst : ¬ list.StartsWithAside := fun starts =>
      clear (.arguments leads isCall hasList starts)
    have noAside : ¬ first.HoldsAside := fun holds =>
      clear (.module leads isCall hasList isFirst holds)
    exact ⟨call, list, first, readLeads, isCall, callee, hasList, isList,
      (Cursor.head?_mainChildren notFirst).symm.trans isFirst,
      namesTestModule_iff.mpr ⟨names, noAside⟩⟩

theorem definesTestFunction_iff {definition : Definition} :
    table.definesTestFunction definition = true ↔
      BringsInTestFunction table.source definition ∧ ¬ definition.IsObscured := by
  constructor
  · intro defines
    unfold definesTestFunction at defines
    split at defines
    next isImport =>
      simp only [Bool.and_eq_true, decide_eq_true_eq] at defines
      obtain ⟨isDefault, defines⟩ := defines
      split at defines
      next statement parentEq =>
        simp only [Bool.and_eq_true, decide_eq_true_eq] at defines
        obtain ⟨isStatement, defines⟩ := defines
        split at defines
        next module hasModule =>
          obtain ⟨names, noAside⟩ := namesTestModule_iff.mp defines
          refine ⟨.imported isImport isDefault parentEq isStatement hasModule names, ?_⟩
          rintro (⟨-, parentEq', hasModule', holds⟩ | ⟨isVariable, -, -⟩)
          · obtain rfl := Option.some.inj (parentEq.symm.trans parentEq')
            obtain rfl := Option.some.inj (hasModule.symm.trans hasModule')
            exact noAside holds
          · simp [isImport] at isVariable
        next => simp at defines
      next => simp at defines
    next isVariable =>
      split at defines
      next value hasValue =>
        obtain ⟨loads, clear⟩ := loadsTestModule_iff.mp defines
        refine ⟨.loaded isVariable hasValue loads, ?_⟩
        rintro (⟨isImport, -, -, -⟩ | ⟨-, hasValue', obscured⟩)
        · simp [isVariable] at isImport
        · obtain rfl := Option.some.inj (hasValue.symm.trans hasValue')
          exact clear obscured
      next => simp at defines
    next => simp at defines
  · rintro ⟨brings, clear⟩
    unfold definesTestFunction
    cases brings with
    | imported isImport isDefault parentEq isStatement hasModule names =>
        have named := namesTestModule_iff.mpr
          ⟨names, fun holds => clear (.imported isImport parentEq hasModule holds)⟩
        simp [isImport, isDefault, parentEq, isStatement, hasModule, named]
    | loaded isVariable hasValue loads =>
        have loaded := loadsTestModule_iff.mpr
          ⟨loads, fun obscured => clear (.loaded isVariable hasValue obscured)⟩
        simp [isVariable, hasValue, loaded]

/-! ## Calls that start a test -/

/-- A variable of the scope of the whole program. -/
def IsProgramVariable (table : ScopeTable) (id : VariableId) : Prop :=
  ∃ program scope, table.global? = some program ∧ table.scopes[program]? = some scope ∧
    id ∈ scope.entries

theorem mem_testFunctions_iff {id : VariableId} :
    id ∈ table.testFunctions ↔
      table.IsProgramVariable id ∧ ∃ definition, table.Holds id definition ∧
        BringsInTestFunction table.source definition ∧ ¬ definition.IsObscured := by
  have someDefines : (table.entries[id]?.any fun entry =>
      (table.definitionsOf entry).any table.definesTestFunction) = true ↔
      ∃ definition, table.Holds id definition ∧
        BringsInTestFunction table.source definition ∧ ¬ definition.IsObscured := by
    simp only [Holds, Option.any_eq_true, List.any_eq_true, definesTestFunction_iff]
    constructor
    · rintro ⟨entry, found, definition, member, brings⟩
      exact ⟨definition, ⟨entry, found, member⟩, brings⟩
    · rintro ⟨definition, ⟨entry, found, member⟩, brings⟩
      exact ⟨entry, found, definition, member, brings⟩
  unfold testFunctions IsProgramVariable
  cases table.global? with
  | none => simp
  | some program =>
      rw [Option.bind_some]
      cases scopeFound : table.scopes[program]? with
      | none => simp [scopeFound]
      | some scope => simp [List.mem_filter, someDefines, scopeFound]

/-- How a call starts a test: what it calls, the name that this goes back to, the variable
that the name means, and the definition of the variable that brings in the test function. -/
structure TestStart where
  callee : Cursor
  root : Cursor
  id : VariableId
  definition : Definition

/-- An aside obscures the name that is called, or the module that it comes from. -/
inductive TestStart.IsObscured (start : TestStart) : Prop where
  | callee (obscured : start.callee.IsObscured (Cursor.accessed? Cursor.mainChildren))
  | definition (obscured : start.definition.IsObscured)

/-- A call of the test function or of one of its properties: the callee goes back
to a name that means a variable of the program, and a definition of the variable brings in
the test function. -/
structure IsTestCall (table : ScopeTable) (call : Cursor) (start : TestStart) : Prop where
  isCall : call.kind = .callExpression
  hasCallee : call.field? .callee = some start.callee
  leads : Reaches (Cursor.accessed? Cursor.mainChildren) start.callee start.root
  isName : start.root.kind = .identifier
  resolves : ∃ reference, table.reference? start.root = some reference ∧
    reference.resolved = some start.id
  isVariable : table.IsProgramVariable start.id
  held : table.Holds start.id start.definition
  bringsIn : BringsInTestFunction table.source start.definition

theorem kind_of_reference? {identifier : Cursor} {reference : Reference}
    (found : table.reference? identifier = some reference) : identifier.kind = .identifier := by
  by_contra other
  simp [reference?, other] at found

theorem isTestCall_iff {call : Cursor} :
    table.isTestCall call = true ↔ ∃ start, table.IsTestCall call start ∧ ¬ start.IsObscured := by
  unfold isTestCall
  rw [Bool.and_eq_true, decide_eq_true_eq]
  constructor
  · rintro ⟨isCall, answer⟩
    split at answer
    next callee hasCallee =>
      split at answer
      next id resolved =>
        obtain ⟨reference, found, resolvedEq⟩ := Option.bind_eq_some_iff.mp resolved
        have isName := kind_of_reference? found
        have member : id ∈ table.testFunctions := by simpa using answer
        obtain ⟨isVariable, definition, held, bringsIn, clear⟩ := mem_testFunctions_iff.mp member
        obtain ⟨leads, clearWay⟩ := (Cursor.reaches_object?_iff isName).mp
          (mem_eval.mp callee.rootObject_mem_eval).1
        refine ⟨⟨callee, callee.rootObject, id, definition⟩, ⟨isCall, hasCallee, leads, isName,
          ⟨reference, found, resolvedEq⟩, isVariable, held, bringsIn⟩, ?_⟩
        rintro (obscured | obscured)
        · exact clearWay obscured
        · exact clear obscured
      next => simp at answer
    next => simp at answer
  · rintro ⟨start, isTestCall, clear⟩
    obtain ⟨isCall, hasCallee, leads, isName, ⟨reference, found, resolvedEq⟩, isVariable, held,
      bringsIn⟩ := isTestCall
    refine ⟨isCall, ?_⟩
    have rootEq : start.callee.rootObject = start.root :=
      (Cursor.rootObject_eq_iff isName).mpr ((Cursor.reaches_object?_iff isName).mpr
        ⟨leads, fun obscured => clear (.callee obscured)⟩)
    have member : start.id ∈ table.testFunctions := mem_testFunctions_iff.mpr
      ⟨isVariable, start.definition, held, bringsIn, fun obscured => clear (.definition obscured)⟩
    simp [hasCallee, rootEq, found, resolvedEq, member]

/-- A function that is handed to a call of the test function. -/
structure IsTest (table : ScopeTable) (function : Cursor) (start : TestStart) : Prop where
  isFunction : function.kind.isFunction = true
  handed : ∃ arguments call, function.parent? = some arguments ∧ arguments.kind = .arguments ∧
    arguments.parent? = some call ∧ table.IsTestCall call start

theorem isTestFunction_iff {function : Cursor} :
    table.isTestFunction function = true ↔
      ∃ start, table.IsTest function start ∧ ¬ start.IsObscured := by
  unfold isTestFunction
  rw [Bool.and_eq_true]
  constructor
  · rintro ⟨isFunction, answer⟩
    split at answer
    next arguments hasArguments =>
      rw [Bool.and_eq_true, decide_eq_true_eq] at answer
      obtain ⟨isList, answer⟩ := answer
      split at answer
      next call hasCall =>
        obtain ⟨start, isTestCall, clear⟩ := isTestCall_iff.mp answer
        exact ⟨start, ⟨isFunction, arguments, call, hasArguments, isList, hasCall, isTestCall⟩,
          clear⟩
      next => simp at answer
    next => simp at answer
  · rintro ⟨start, ⟨isFunction, arguments, call, hasArguments, isList, hasCall, isTestCall⟩, clear⟩
    have answer := isTestCall_iff.mpr ⟨start, isTestCall, clear⟩
    simp [isFunction, hasArguments, isList, hasCall, answer]

/-- A node stands in a test when a function above it is one. -/
theorem isInTest_iff {node : Cursor} :
    table.isInTest node = true ↔
      ∃ function ∈ node.ancestors, ∃ start, table.IsTest function start ∧ ¬ start.IsObscured := by
  simp only [isInTest, List.any_eq_true, isTestFunction_iff]

/-- Only test files have tests. -/
theorem isTestFile_of_isInTest {node : Cursor} (inTest : table.isInTest node = true) :
    table.isTestFile = true := by
  obtain ⟨function, -, start, isTest, clear⟩ := isInTest_iff.mp inTest
  obtain ⟨-, arguments, call, -, -, -, isTestCall⟩ := isTest
  have member : start.id ∈ table.testFunctions := mem_testFunctions_iff.mpr
    ⟨isTestCall.isVariable, start.definition, isTestCall.held, isTestCall.bringsIn,
      fun obscured => clear (.definition obscured)⟩
  rw [isTestFile]
  simpa using List.ne_nil_of_mem member

end ScopeTable

end AssertLint
