import AssertLint.Proofs.Scope.DeclarationSites
import AssertLint.Proofs.TestFile

/-!
# The way into a test

Whether a node stands in a test is decided by climbing the tree to a function, by
climbing the scopes from the callee that the function is handed to, and by going
through the definitions of the variable found there.  This file puts the three
together: it says in terms of the tree alone which imports bring in the test
function, and that a name of any inner scope hides it.
-/

namespace AssertLint

open StateTransition

namespace Cursor

/-- A statement makes a definition of the test function: the default import of the test
module, or a name by itself whose value loads the module. -/
inductive ImportsTestFunction (source : Source) (statement : Cursor) : Definition → Prop where
  | defaultImport {clause name module : Cursor} (isImport : statement.kind = .importStatement)
      (hasClause : statement.mainChildren.find? (·.kind = .importClause) = some clause)
      (imports : name ∈ clause.mainChildren) (isName : name.kind = .identifier)
      (hasModule : statement.field? .source = some module)
      (names : NamesTestModule source module) :
      ImportsTestFunction source statement ⟨.importedName, name, name, some statement⟩
  | declarator {declarator name value : Cursor}
      (isDeclaration : statement.kind = .variableDeclaration ∨
        statement.kind = .lexicalDeclaration)
      (declares : declarator ∈ statement.mainChildren)
      (isDeclarator : declarator.kind = .variableDeclarator)
      (hasName : declarator.field? .name = some name)
      (isName : name.kind = .identifier ∨ name.kind = .shorthandPropertyIdentifierPattern)
      (hasValue : declarator.field? .value = some value)
      (loads : value.LoadsTestModule source) :
      ImportsTestFunction source statement ⟨.declaredVariable, name, declarator, some statement⟩

theorem Binds.eq_of_address_eq {pattern name : Cursor} (binds : pattern.Binds name)
    (same : pattern.address = name.address) : pattern = name := by
  rcases List.mem_cons.mp binds.mem_selfAndAncestors with isSelf | above
  · exact isSelf
  · exact absurd same (address_ne_of_mem_ancestors above)

end Cursor

theorem Definition.initializer?_declarator {statement name declarator pattern value : Cursor}
    (hasPattern : declarator.field? .name = some pattern) :
    (Definition.mk .declaredVariable name declarator (some statement)).initializer? = some value ↔
      declarator.kind = .variableDeclarator ∧ pattern.address = name.address ∧
        declarator.field? .value = some value := by
  simp only [initializer?, hasPattern, true_and]
  split
  · split <;> simp_all
  · simp_all

theorem Cursor.ImportsTestFunction.bringsIn {source : Source} {statement : Cursor}
    {definition : Definition} (imports : statement.ImportsTestFunction source definition) :
    BringsInTestFunction source definition := by
  cases imports with
  | defaultImport isImport hasClause imports isName hasModule names =>
      exact .imported rfl isName rfl isImport hasModule names
  | declarator isDeclaration declares isDeclarator hasName isName hasValue loads =>
      exact .loaded rfl
        ((Definition.initializer?_declarator hasName).mpr ⟨isDeclarator, rfl, hasValue⟩) loads

private theorem importsTestFunction_of_declarator {source : Source}
    {statement declarator pattern name : Cursor}
    (isDeclaration : statement.kind = .variableDeclaration ∨
      statement.kind = .lexicalDeclaration)
    (declares : declarator ∈ statement.contentChildren)
    (hasPattern : declarator.field? .name = some pattern) (binds : pattern.Binds name)
    (bringsIn : BringsInTestFunction source
      ⟨.declaredVariable, name, declarator, some statement⟩) :
    statement.ImportsTestFunction source
      ⟨.declaredVariable, name, declarator, some statement⟩ := by
  cases bringsIn with
  | imported isImport => simp at isImport
  | loaded _ initialized loads =>
      obtain ⟨isDeclarator, same, hasValue⟩ :=
        (Definition.initializer?_declarator hasPattern).mp initialized
      obtain rfl := binds.eq_of_address_eq same
      have isPart := Cursor.mem_mainChildren_iff_contentChildren.mpr
        ⟨declares, by rw [isDeclarator]; rfl⟩
      exact .declarator isDeclaration isPart isDeclarator hasPattern binds.isName hasValue loads

/-- Of the definitions that a statement introduces, those that bring in the test function
are imports of it. -/
theorem Cursor.Introduces.importsTestFunction {source : Source} {statement : Cursor}
    {block? : Option Cursor} {definition : Definition}
    (introduces : statement.Introduces Cursor.Binds source block? definition)
    (bringsIn : BringsInTestFunction source definition) :
    statement.ImportsTestFunction source definition := by
  cases introduces with
  | varDeclarator isVar declares _ hasPattern binds =>
      exact importsTestFunction_of_declarator (Or.inl isVar) declares hasPattern binds bringsIn
  | lexicalDeclarator isLexical declares _ hasPattern binds =>
      exact importsTestFunction_of_declarator (Or.inr isLexical) declares hasPattern binds bringsIn
  | defaultImport isImport hasClause imports isName =>
      cases bringsIn with
      | imported _ _ parentEq _ hasModule names =>
          obtain rfl := Option.some.inj parentEq
          rw [← Cursor.find?_mainChildren rfl] at hasClause
          have isPart := Cursor.mem_mainChildren_iff_contentChildren.mpr
            ⟨imports, by rw [isName]; rfl⟩
          exact .defaultImport isImport hasClause isPart isName hasModule names
      | loaded isVariable => simp at isVariable
  | namespaceImport _ _ _ isSpace _ =>
      cases bringsIn with
      | imported _ isDefault => simp [isSpace] at isDefault
      | loaded isVariable => simp at isVariable
  | namedImport _ _ _ _ _ isSpecifier _ _ =>
      cases bringsIn with
      | imported _ isDefault => simp [isSpecifier] at isDefault
      | loaded isVariable => simp at isVariable
  | loopVar isLoop | loopLexical isLoop =>
      cases bringsIn with
      | imported isImport => simp at isImport
      | loaded _ initialized => simp [Definition.initializer?, isLoop] at initialized
  | soleParameter | listedParameter | declaredFunction | functionExpression | declaredClass
  | classExpression | caught =>
      cases bringsIn with
      | imported isImport => simp at isImport
      | loaded isVariable => simp at isVariable

/-! ## Names of inner scopes -/

namespace Cursor

theorem mem_ancestors_of_parent? {cursor parent : Cursor}
    (hasParent : cursor.parent? = some parent) : parent ∈ cursor.ancestors := by
  obtain ⟨node, ascents⟩ := cursor
  cases ascents with
  | nil => simp [parent?] at hasParent
  | cons ascent rest =>
      obtain rfl := Option.some.inj hasParent
      exact List.mem_cons_self

theorem pairwise_ancestorsAlong (ascents : List Ascent) :
    (ancestorsAlong ascents).Pairwise fun inner outer => outer ∈ inner.ancestors := by
  induction ascents with
  | nil => exact List.Pairwise.nil
  | cons ascent rest ih => exact List.Pairwise.cons (fun outer member => member) ih

end Cursor

namespace ScopeTable

/-- A name means no variable further out than a block that defines it. -/
theorem Means.exists_holder_inside {table : ScopeTable} {name : String} {blocks : List Cursor}
    {id : VariableId} (means : table.Means name blocks id)
    (nested : blocks.Pairwise fun inner outer => outer ∈ inner.ancestors) {block : Cursor}
    (member : block ∈ blocks) {definition : Definition}
    (defines : table.Defines block name definition) :
    ∃ holder, table.IsVariableOf holder name id ∧ block ∈ holder.selfAndAncestors := by
  induction means with
  | @here inner outer id isVariable =>
      refine ⟨inner, isVariable, ?_⟩
      rcases List.mem_cons.mp member with rfl | further
      · exact List.mem_cons_self
      · exact List.mem_cons_of_mem inner ((List.pairwise_cons.mp nested).1 block further)
  | @further inner outer id undefined beyond ih =>
      rcases List.mem_cons.mp member with rfl | further
      · exact absurd defines (undefined definition)
      · exact ih (List.pairwise_cons.mp nested).2 further

/-- A call starts a test: what it calls goes back to a name that means a variable of the
whole program, and some statement of the tree makes an import of the test function that the
variable holds. -/
structure StartsTest (table : ScopeTable) (tree : Node) (call : Cursor) (start : TestStart) :
    Prop where
  isCall : call.kind = .callExpression
  hasCallee : call.field? .callee = some start.callee
  leads : Reaches (Cursor.accessed? Cursor.mainChildren) start.callee start.root
  isName : start.root.kind = .identifier
  means : table.Means (table.text start.root) (start.root.ancestors.filter Cursor.makesScope)
    start.id
  isVariable : table.IsProgramVariable start.id
  imports : ∃ statement ∈ tree.cursors,
    statement.ImportsTestFunction table.source start.definition
  held : table.Holds start.id start.definition

/-- A function is an argument of a call that starts a test. -/
structure HandsToTest (table : ScopeTable) (tree : Node) (function : Cursor) (start : TestStart) :
    Prop where
  isFunction : function.kind.isFunction = true
  handed : ∃ arguments call, function.parent? = some arguments ∧ arguments.kind = .arguments ∧
    arguments.parent? = some call ∧ table.StartsTest tree call start

/-- The tests of a table are those of a tree. -/
structure GatesTests (table : ScopeTable) (tree : Node) : Prop where
  /-- The nodes in tests are those below a function that is an argument of a call that
  starts a test, if no aside obscures how. -/
  inTest : ∀ node ∈ tree.cursors, table.isInTest node = true ↔
    ∃ function ∈ node.ancestors, ∃ start, table.HandsToTest tree function start ∧
      ¬ start.IsObscured
  /-- A scope around the callee that defines its name hides the test function, if the scope
  of the program lies further out. -/
  hidden : ∀ call callee root, call ∈ tree.cursors → call.field? .callee = some callee →
    Reaches (Cursor.accessed? Cursor.mainChildren) callee root → root.kind = .identifier →
    ∀ program, table.global? = some program → ∀ programBlock, table.IsScopeOf program programBlock →
    ∀ block ∈ callee.ancestors, programBlock ∈ block.ancestors →
    ∀ definition, table.Defines block (table.text root) definition →
      table.isTestCall call = false
  /-- If only the root is a program, that is so for every scope but that of the program. -/
  hiddenByOther : (∀ node ∈ tree.cursors, node.kind = .program → node = Cursor.root tree) →
    ∀ call callee root, call ∈ tree.cursors → call.field? .callee = some callee →
    Reaches (Cursor.accessed? Cursor.mainChildren) callee root → root.kind = .identifier →
    ∀ scope block, table.IsScopeOf scope block → table.global? ≠ some scope →
    block ∈ callee.ancestors →
    ∀ definition, table.Defines block (table.text root) definition →
      table.isTestCall call = false
  inherited : ∀ node, table.isInTest node = true → ∀ inner, node ∈ inner.ancestors →
    table.isInTest inner = true
  onlyInTestFiles : ∀ node, table.isInTest node = true → table.isTestFile = true

section Program

variable {source : Source} {tree : Node}

theorem mem_cursors_of_accessed? {call callee root : Cursor} (inTree : call ∈ tree.cursors)
    (hasCallee : call.field? .callee = some callee)
    (leads : Reaches (Cursor.accessed? Cursor.mainChildren) callee root) : root ∈ tree.cursors := by
  have calleeIn := (Cursor.mem_cursors_iff.mp inTree).of_field? hasCallee
  exact Cursor.mem_cursors_iff.mpr
    (calleeIn.of_reaches (fun _ _ => Cursor.mem_children_of_accessed?) leads)

/-- The calls of the test function are those that start a test. -/
theorem isTestCall_iff_startsTest (isProgram : tree.kind = .program) {call : Cursor}
    (inTree : call ∈ tree.cursors) {start : TestStart} :
    (ofTree source tree).IsTestCall call start ↔
      (ofTree source tree).StartsTest tree call start := by
  constructor
  · rintro ⟨isCall, hasCallee, leads, isName, ⟨reference, found, isResolved⟩, isVariable, held,
      bringsIn⟩
    obtain ⟨reference', -, found', -, -, resolves⟩ := exists_reference? source isProgram
      (mem_cursors_of_accessed? inTree hasCallee leads) isName
    obtain rfl := Option.some.inj (found.symm.trans found')
    obtain ⟨statement, statementIn, _, _, -, -, -, introduces⟩ := held.exists_site isProgram
    refine ⟨isCall, hasCallee, leads, isName, ?_, isVariable, ⟨statement, statementIn, ?_⟩, held⟩
    · rw [text, source_ofTree]
      exact (resolves start.id).mp isResolved
    · rw [source_ofTree] at bringsIn ⊢
      exact introduces.importsTestFunction bringsIn
  · rintro ⟨isCall, hasCallee, leads, isName, means, isVariable, ⟨statement, -, imports⟩, held⟩
    obtain ⟨reference, -, found, -, -, resolves⟩ := exists_reference? source isProgram
      (mem_cursors_of_accessed? inTree hasCallee leads) isName
    rw [text, source_ofTree] at means
    exact ⟨isCall, hasCallee, leads, isName, ⟨reference, found, (resolves start.id).mpr means⟩,
      isVariable, held, imports.bringsIn⟩

theorem isTest_iff_handsToTest (isProgram : tree.kind = .program) {node function : Cursor}
    (inTree : node ∈ tree.cursors) (above : function ∈ node.ancestors) {start : TestStart} :
    (ofTree source tree).IsTest function start ↔
      (ofTree source tree).HandsToTest tree function start := by
  have callIn {arguments call : Cursor} (hasArguments : function.parent? = some arguments)
      (hasCall : arguments.parent? = some call) : call ∈ tree.cursors := by
    have functionIn := (Cursor.mem_cursors_iff.mp inTree).of_mem_ancestors above
    have argumentsIn := functionIn.of_mem_ancestors (Cursor.mem_ancestors_of_parent? hasArguments)
    exact Cursor.mem_cursors_iff.mpr
      (argumentsIn.of_mem_ancestors (Cursor.mem_ancestors_of_parent? hasCall))
  constructor
  · rintro ⟨isFunction, arguments, call, hasArguments, isList, hasCall, isTestCall⟩
    exact ⟨isFunction, arguments, call, hasArguments, isList, hasCall,
      (isTestCall_iff_startsTest isProgram (callIn hasArguments hasCall)).mp isTestCall⟩
  · rintro ⟨isFunction, arguments, call, hasArguments, isList, hasCall, starts⟩
    exact ⟨isFunction, arguments, call, hasArguments, isList, hasCall,
      (isTestCall_iff_startsTest isProgram (callIn hasArguments hasCall)).mpr starts⟩

theorem makesScope_of_defines {block : Cursor} {name : String} {definition : Definition}
    (defines : (ofTree source tree).Defines block name definition) : block.makesScope = true := by
  obtain ⟨scope, member, rfl, -⟩ := defines
  have typeEq : scope.block.scopeType? = some scope.type :=
    (ScopeBuilder.follows_walk source tree).types scope member
  rw [Cursor.makesScope, typeEq]
  rfl

/-- A block around the callee of a call that starts a test, and that defines the name, is the
program or around it. -/
theorem StartsTest.exists_program_inside (isProgram : tree.kind = .program)
    {call callee root : Cursor} {start : TestStart}
    (starts : (ofTree source tree).StartsTest tree call start)
    (hasCallee : call.field? .callee = some callee)
    (leads : Reaches (Cursor.accessed? Cursor.mainChildren) callee root)
    (isName : root.kind = .identifier) {block : Cursor} (around : block ∈ callee.ancestors)
    {definition : Definition}
    (defines : (ofTree source tree).Defines block ((ofTree source tree).text root) definition) :
    ∃ program programBlock, (ofTree source tree).global? = some program ∧
      (ofTree source tree).IsScopeOf program programBlock ∧
      block ∈ programBlock.selfAndAncestors := by
  obtain rfl : callee = start.callee := Option.some.inj (hasCallee.symm.trans starts.hasCallee)
  obtain rfl : root = start.root := Cursor.eq_of_reaches_accessed? leads starts.leads isName
    starts.isName
  have calleeAbove : start.callee ∈ start.root.selfAndAncestors :=
    Cursor.mem_selfAndAncestors_of_reaches (fun _ _ => Cursor.mem_children_of_accessed?) leads
  have member : block ∈ start.root.ancestors.filter Cursor.makesScope :=
    List.mem_filter.mpr ⟨Cursor.mem_ancestors_of_mem_ancestors calleeAbove around,
      makesScope_of_defines defines⟩
  obtain ⟨holder, isVariable, inside⟩ := starts.means.exists_holder_inside
    ((Cursor.pairwise_ancestorsAlong start.root.ascents).filter _) member defines
  obtain ⟨entry, entryFound, -, isScope⟩ := isVariable.isVariable
  obtain ⟨program, scope, isGlobal, scopeFound, isListed⟩ := starts.isVariable
  obtain ⟨entry', entryFound', rfl⟩ :=
    ((isFiled_of_program source isProgram).listed program scope scopeFound _).mp isListed
  obtain rfl := Option.some.inj (entryFound.symm.trans entryFound')
  exact ⟨entry.scope, holder, isGlobal, isScope, inside⟩

/-- In a tree whose only program is the root, the scope of the program is that of the
root. -/
theorem eq_root_of_global? {program : ScopeId} {programBlock : Cursor}
    (onlyRoot : ∀ node ∈ tree.cursors, node.kind = .program → node = Cursor.root tree)
    (isGlobal : (ofTree source tree).global? = some program)
    (isScope : (ofTree source tree).IsScopeOf program programBlock) :
    programBlock = Cursor.root tree := by
  have follows := ScopeBuilder.follows_walk source tree
  obtain ⟨scope, found, rfl⟩ := isScope.exists_scope
  have member := List.mem_of_getElem? found
  have typeEq : (ofTree source tree).scopes[program]?.map Scope.type = some .global :=
    follows.global program isGlobal
  have blockType := follows.types scope member
  rw [found, Option.map_some] at typeEq
  rw [Option.some.inj typeEq] at blockType
  exact onlyRoot scope.block (follows.mem_entered member)
    (Cursor.kind_eq_program_of_scopeType? blockType)

/-- In a program the tests are the functions handed to calls of the imported test function,
where no inner scope hides its name and no aside obscures it. -/
theorem gatesTests_ofTree (source : Source) {tree : Node} (isProgram : tree.kind = .program) :
    (ofTree source tree).GatesTests tree := by
  constructor
  case inTest =>
    intro node inTree
    rw [isInTest_iff]
    apply exists_congr
    intro function
    apply and_congr_right
    intro above
    simp only [isTest_iff_handsToTest isProgram inTree above]
  case hidden =>
    intro call callee root inTree hasCallee leads isName program isGlobal programBlock isScope
      block around inside definition defines
    rw [← Bool.not_eq_true, isTestCall_iff]
    rintro ⟨start, isTestCall, -⟩
    have starts := (isTestCall_iff_startsTest isProgram inTree).mp isTestCall
    obtain ⟨program', programBlock', isGlobal', isScope', outside⟩ :=
      starts.exists_program_inside isProgram hasCallee leads isName around defines
    obtain rfl := Option.some.inj (isGlobal.symm.trans isGlobal')
    obtain rfl := Option.some.inj (isScope.symm.trans isScope')
    exact Cursor.address_ne_of_mem_ancestors
      (Cursor.mem_ancestors_of_mem_ancestors outside inside) rfl
  case hiddenByOther =>
    intro onlyRoot call callee root inTree hasCallee leads isName scope block isScope notGlobal
      around definition defines
    rw [← Bool.not_eq_true, isTestCall_iff]
    rintro ⟨start, isTestCall, -⟩
    have starts := (isTestCall_iff_startsTest isProgram inTree).mp isTestCall
    obtain ⟨program, programBlock, isGlobal, isProgramScope, outside⟩ :=
      starts.exists_program_inside isProgram hasCallee leads isName around defines
    obtain rfl := eq_root_of_global? onlyRoot isGlobal isProgramScope
    obtain rfl := List.mem_singleton.mp outside
    exact notGlobal (isProgramScope.unique
      (ScopeBuilder.follows_walk source tree).nodup_blocks_of_tree isScope ▸ isGlobal)
  case inherited =>
    intro node inTest inner below
    obtain ⟨function, above, isTest⟩ := isInTest_iff.mp inTest
    exact isInTest_iff.mpr ⟨function,
      Cursor.mem_ancestors_of_mem_ancestors (List.mem_cons_of_mem inner below) above, isTest⟩
  case onlyInTestFiles => exact fun node => isTestFile_of_isInTest

end Program

/-- The text of a test and of a function in which the name of the test function is
hidden. -/
def hidingText : Source := "import a from 'ava';a(()=>b);a=>a(()=>b)".toList

/-- A call at an offset of the one-letter name there, with a function without
parameters. -/
def hidingCall (start : Nat) : Node :=
  .ofChildren .callExpression start (start + 8)
    [Node.inField (.leaf .identifier start (start + 1)) .callee,
      Node.inField
        (.ofChildren .arguments (start + 1) (start + 8)
          [.ofChildren .arrowFunction (start + 2) (start + 7)
            [Node.inField (.leaf .formalParameters (start + 2) (start + 4)) .parameters,
              Node.inField (.leaf .identifier (start + 6) (start + 7)) .body]])
        .arguments]

/-- The tree of the text. -/
def hidingTree : Node :=
  .ofChildren .program 0 40
    [.ofChildren .importStatement 0 20
      [.ofChildren .importClause 7 8 [.leaf .identifier 7 8],
        Node.inField (.ofChildren .stringLiteral 14 19 [.leaf .stringFragment 15 18]) .source],
      .ofChildren .expressionStatement 20 29 [hidingCall 20],
      .ofChildren .expressionStatement 29 40
        [.ofChildren .arrowFunction 29 40
          [Node.inField (.leaf .identifier 29 30) .parameter, (hidingCall 32).inField .body]]]

/-- Of the names in the sample, only the one in the first function stands in a test. -/
theorem gatesTests_hidingTree :
    (hidingTree.cursors.filter fun node =>
        (ofTree hidingText hidingTree).isInTest node && decide (node.kind = .identifier)).map
      Cursor.span = [⟨26, 27⟩] ∧
    (ofTree hidingText hidingTree).GatesTests hidingTree :=
  ⟨by decide +kernel, gatesTests_ofTree hidingText rfl⟩

/-- The text of a test whose module comes behind a comment in the style of web pages. -/
def obscuredText : Source := "const a=require(<!-- c\n'ava');a(()=>/b/)".toList

/-- The tree of the text. -/
def obscuredTree : Node :=
  .ofChildren .program 0 40
    [.ofChildren .lexicalDeclaration 0 30
      [.ofChildren .variableDeclarator 6 29
        [Node.inField (.leaf .identifier 6 7) .name,
          Node.inField
            (.ofChildren .callExpression 8 29
              [Node.inField (.leaf .identifier 8 15) .callee,
                Node.inField
                  (.ofChildren .arguments 15 29
                    [.leaf .htmlComment 16 22,
                      .ofChildren .stringLiteral 23 28 [.leaf .stringFragment 24 27]])
                  .arguments])
            .value]],
      .ofChildren .expressionStatement 30 40
        [.ofChildren .callExpression 30 40
          [Node.inField (.leaf .identifier 30 31) .callee,
            Node.inField
              (.ofChildren .arguments 31 40
                [.ofChildren .arrowFunction 32 39
                  [Node.inField (.leaf .formalParameters 32 34) .parameters,
                    Node.inField
                      (.ofChildren .regexLiteral 36 39
                        [Node.inField (.leaf .regexPattern 37 38) .pattern])
                      .body]])
              .arguments]]]

/-- The first node of a kind in the tree, from an offset on. -/
abbrev obscuredNode : Kind → Nat → Cursor := Cursor.firstFrom obscuredTree

/-- How the call in the sample starts a test. -/
def obscuredStart : TestStart where
  callee := obscuredNode .identifier 30
  root := obscuredNode .identifier 30
  id := 0
  definition := (ofTree obscuredText obscuredTree).definitions.getD 0 default

theorem isTestCall_obscuredStart :
    (ofTree obscuredText obscuredTree).IsTestCall (obscuredNode .callExpression 30)
      obscuredStart where
  isCall := rfl
  hasCallee := rfl
  leads := .refl
  isName := rfl
  resolves := ⟨_, rfl, rfl⟩
  isVariable := ⟨0, _, rfl, rfl, by decide +kernel⟩
  held := ⟨_, rfl, mem_definitionsOf_iff.mpr ⟨0, by decide +kernel, rfl⟩⟩
  bringsIn := by
    have names : NamesTestModule obscuredText (obscuredNode .stringLiteral 0) :=
      ⟨rfl, obscuredNode .stringFragment 0, rfl, rfl, by decide +kernel⟩
    have calls : Cursor.CallsLoader obscuredText (obscuredNode .callExpression 0)
        (obscuredNode .arguments 0) (obscuredNode .stringLiteral 0) :=
      ⟨rfl, ⟨obscuredNode .identifier 8, rfl, rfl, by decide +kernel⟩, rfl, rfl, rfl, names⟩
    exact .loaded rfl rfl ⟨_, _, _, .refl, calls⟩

/-- The regular expression in the sample stands in a test, but it is not found there. -/
theorem obscured_test_missed :
    ∃ node ∈ obscuredTree.cursors, node.kind = .regexLiteral ∧
      (∃ function ∈ node.ancestors, ∃ start,
        (ofTree obscuredText obscuredTree).HandsToTest obscuredTree function start) ∧
      (ofTree obscuredText obscuredTree).isInTest node = false := by
  have starts :=
    (isTestCall_iff_startsTest rfl (Cursor.firstFrom_mem _ _ _)).mp isTestCall_obscuredStart
  have handed : (ofTree obscuredText obscuredTree).HandsToTest obscuredTree
      (obscuredNode .arrowFunction 0) obscuredStart :=
    ⟨rfl, obscuredNode .arguments 30, _, rfl, rfl, rfl, starts⟩
  have above : obscuredNode .arrowFunction 0 ∈ (obscuredNode .regexLiteral 0).ancestors :=
    Cursor.mem_ancestors_of_parent? rfl
  exact ⟨obscuredNode .regexLiteral 0, Cursor.firstFrom_mem _ _ _, rfl, ⟨_, above, _, handed⟩,
    by decide +kernel⟩

end ScopeTable

end AssertLint
