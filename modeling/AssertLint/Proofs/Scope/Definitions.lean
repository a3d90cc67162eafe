import AssertLint.Proofs.Scope.BindingPositions

/-!
# The definitions of a program

The definitions in the scopes of a program correspond one to one with the binding
sites of its tree: each is recorded, under its name and in the scope of the block
to which it belongs, and nothing else is.  The exceptions are names that a comment
hides in a pattern.
-/

namespace AssertLint

namespace ScopeTable

/-- The scope of a block holds a definition under a name. -/
def Defines (table : ScopeTable) (block : Cursor) (name : String) (definition : Definition) :
    Prop :=
  ∃ scope ∈ table.scopes, scope.block = block ∧
    ∃ entry ∈ table.variablesOf scope, entry.name = name ∧ definition ∈ table.definitionsOf entry

section Program

variable {source : Source} {tree : Node}

theorem isFiled_of_program (source : Source) (isProgram : tree.kind = .program) :
    (ofTree source tree).IsFiled :=
  (ScopeBuilder.records_walk source isProgram).filed

/-- Every site has been given a variable, in the scope of its block. -/
theorem exists_holder_of_site (isProgram : tree.kind = .program)
    {site : Option Cursor × Definition}
    (inSites : site ∈ tree.cursors.flatMap (·.sites source)) :
    ∃ block, site.1 = some block ∧
      (ofTree source tree).Defines block (site.2.name.text source) site.2 := by
  have records := ScopeBuilder.records_walk source isProgram
  have filed := isFiled_of_program source isProgram
  obtain ⟨number, siteFound⟩ := List.mem_iff_getElem?.mp inSites
  have definitionFound : (ofTree source tree).definitions[number]? = some site.2 := by
    have madeEq : (ofTree source tree).definitions =
        (tree.cursors.flatMap (·.sites source)).map Prod.snd := records.made
    rw [madeEq, List.getElem?_map, siteFound]
    rfl
  obtain ⟨entry, entryMem, numberMem⟩ := filed.exists_entry_of_definition definitionFound
  obtain ⟨block, siteEq, isScope⟩ := records.placed number site siteFound entry entryMem numberMem
  obtain ⟨scope, scopeFound, rfl⟩ := isScope.exists_scope
  obtain ⟨id, entryFound⟩ := List.mem_iff_getElem?.mp entryMem
  have isHeld := mem_definitionsOf_iff.mpr ⟨number, numberMem, definitionFound⟩
  refine ⟨scope.block, siteEq, scope, List.mem_of_getElem? scopeFound, rfl, entry, ?_, ?_, isHeld⟩
  · exact mem_variablesOf_iff.mpr
      ⟨id, (filed.listed _ scope scopeFound id).mpr ⟨entry, entryFound, rfl⟩, entryFound⟩
  · rw [← filed.text_eq entryMem isHeld, text, source_ofTree]

theorem defines_ofTree_iff (isProgram : tree.kind = .program) {block : Cursor} {name : String}
    {definition : Definition} :
    (ofTree source tree).Defines block name definition ↔
      (∃ node ∈ tree.cursors, node.Introduces Cursor.Binds source (some block) definition) ∧
        definition.name.text source = name := by
  have records := ScopeBuilder.records_walk source isProgram
  have filed := isFiled_of_program source isProgram
  have sitesIff : (some block, definition) ∈ tree.cursors.flatMap (·.sites source) ↔
      ∃ node ∈ tree.cursors, node.Introduces Cursor.Binds source (some block) definition := by
    simp only [List.mem_flatMap, Cursor.mem_sites_iff]
  rw [← sitesIff]
  constructor
  · rintro ⟨scope, member, rfl, entry, entryIn, rfl, isHeld⟩
    obtain ⟨place, scopeFound⟩ := List.mem_iff_getElem?.mp member
    obtain ⟨id, isListed, entryFound⟩ := mem_variablesOf_iff.mp entryIn
    obtain ⟨_, entryFound', rfl⟩ := (filed.listed place scope scopeFound id).mp isListed
    obtain rfl := Option.some.inj (entryFound.symm.trans entryFound')
    have entryMem := List.mem_of_getElem? entryFound
    obtain ⟨number, numberMem, definitionFound⟩ := mem_definitionsOf_iff.mp isHeld
    have madeEq : (ofTree source tree).definitions =
        (tree.cursors.flatMap (·.sites source)).map Prod.snd := records.made
    rw [madeEq, List.getElem?_map] at definitionFound
    obtain ⟨⟨block?, _⟩, siteFound, rfl⟩ := Option.map_eq_some_iff.mp definitionFound
    obtain ⟨block, rfl, isScope⟩ := records.placed number _ siteFound entry entryMem numberMem
    have isScope' : (ofTree source tree).IsScopeOf entry.scope scope.block :=
      isScopeOf_block scopeFound
    obtain rfl : block = scope.block := Option.some.inj (isScope.symm.trans isScope')
    refine ⟨List.mem_of_getElem? siteFound, ?_⟩
    rw [← filed.text_eq entryMem isHeld, text, source_ofTree]
  · rintro ⟨inSites, rfl⟩
    obtain ⟨block', blockEq, defines⟩ := exists_holder_of_site isProgram inSites
    obtain rfl := Option.some.inj blockEq
    exact defines

theorem nodup_definitions_ofTree (isProgram : tree.kind = .program) :
    ((ofTree source tree).definitions.map (·.name.address)).Nodup := by
  have madeEq : (ofTree source tree).definitions =
      (tree.cursors.flatMap (·.sites source)).map Prod.snd :=
    (ScopeBuilder.records_walk source isProgram).made
  rw [madeEq, List.map_map]
  exact Cursor.nodup_flatMap_sites source tree

/-- A recorded definition is at one site. -/
theorem eq_of_defines (isProgram : tree.kind = .program) {block block' : Cursor}
    {name name' : String} {definition definition' : Definition}
    (defines : (ofTree source tree).Defines block name definition)
    (defines' : (ofTree source tree).Defines block' name' definition')
    (sameAddress : definition.name.address = definition'.name.address) :
    block = block' ∧ definition = definition' := by
  have inSites {block : Cursor} {name : String} {definition : Definition}
      (defines : (ofTree source tree).Defines block name definition) :
      (some block, definition) ∈ tree.cursors.flatMap (·.sites source) := by
    obtain ⟨⟨node, inTree, introduces⟩, -⟩ := (defines_ofTree_iff isProgram).mp defines
    exact List.mem_flatMap.mpr ⟨node, inTree, introduces.mem_sites⟩
  have sameSite := List.inj_on_of_nodup_map (Cursor.nodup_flatMap_sites source tree)
    (inSites defines) (inSites defines') sameAddress
  obtain ⟨sameBlock, sameDefinition⟩ := Prod.mk.inj sameSite
  exact ⟨Option.some.inj sameBlock, sameDefinition⟩

end Program

end ScopeTable

namespace Cursor

/-- A pattern declares a name that no comment hides. -/
def DeclaresInView (pattern name : Cursor) : Prop :=
  pattern.Declares name ∧ ¬ pattern.IsHidden name

/-- A pattern declares a name that no comment hides, and the patterns on the way to it have
the parts that the grammar gives them. -/
def DeclaresPlainly (pattern name : Cursor) : Prop :=
  pattern.DeclaresInView name ∧
    ∀ place ∈ name.ancestors, pattern ∈ place.selfAndAncestors → place.HasPatternParts

end Cursor

namespace ScopeTable

/-- The definitions that are recorded are those at the binding sites of a tree. -/
structure MatchesSites (table : ScopeTable) (tree : Node) : Prop where
  /-- Each site is in a scope, which holds the definition under its name. -/
  recorded : ∀ node ∈ tree.cursors, ∀ block? definition, definition.name ∈ tree.cursors →
    node.Introduces Cursor.DeclaresPlainly table.source block? definition →
      ∃ block, block? = some block ∧ table.Defines block (table.text definition.name) definition
  /-- Each definition that a scope holds is at a site of its block. -/
  atSite : ∀ block name definition, table.Defines block name definition →
    name = table.text definition.name ∧ definition.name ∈ tree.cursors ∧
      ∃ node ∈ tree.cursors,
        node.Introduces Cursor.DeclaresInView table.source (some block) definition
  /-- No name node is recorded twice. -/
  once : ∀ block name definition block' name' definition',
    table.Defines block name definition → table.Defines block' name' definition' →
      definition.name.address = definition'.name.address →
        block = block' ∧ definition = definition'
  distinct : (table.definitions.map (·.name.address)).Nodup

/-- In a program the recorded definitions are those at the binding sites whose names no
comment hides. -/
theorem definitions_match_visible_sites (source : Source) {tree : Node}
    (isProgram : tree.kind = .program) : (ofTree source tree).MatchesSites tree := by
  constructor
  case recorded =>
    intro node inTree block? definition nameIn introduces
    rw [source_ofTree] at introduces
    have nameLies := Cursor.mem_cursors_iff.mp nameIn
    have introduced : node.Introduces Cursor.Binds source block? definition :=
      introduces.imp (Cursor.mem_cursors_iff.mp inTree)
        fun pattern _ ⟨⟨declares, notHidden⟩, parts⟩ => declares.binds nameLies parts notHidden
    have inSites : (block?, definition) ∈ tree.cursors.flatMap (·.sites source) :=
      List.mem_flatMap.mpr ⟨node, inTree, introduced.mem_sites⟩
    rw [text, source_ofTree]
    exact exists_holder_of_site isProgram inSites
  case atSite =>
    intro block name definition defines
    obtain ⟨⟨node, inTree, introduces⟩, nameEq⟩ := (defines_ofTree_iff isProgram).mp defines
    have lies := Cursor.mem_cursors_iff.mp inTree
    have nameLies := introduces.owns.2.liesIn lies
    rw [text, source_ofTree]
    refine ⟨nameEq.symm, Cursor.mem_cursors_iff.mpr nameLies, node, inTree, ?_⟩
    exact introduces.imp lies fun pattern _ binds =>
      ⟨binds.declares nameLies, binds.not_isHidden nameLies⟩
  case once =>
    exact fun block name definition block' name' definition' => eq_of_defines isProgram
  case distinct => exact nodup_definitions_ofTree isProgram

/-- The text `function f(a){var b}`. -/
def sampleText : Source := "function f(a){var b}".toList

/-- The tree of the text. -/
def sampleFunction : Node :=
  .ofChildren .program 0 20
    [.ofChildren .functionDeclaration 0 20
      [Node.inField (.leaf .identifier 9 10) .name,
        Node.inField (.ofChildren .formalParameters 10 13 [.leaf .identifier 11 12]) .parameters,
        Node.inField
          (.ofChildren .statementBlock 13 20
            [.ofChildren .variableDeclaration 14 19
              [.ofChildren .variableDeclarator 18 19
                [Node.inField (.leaf .identifier 18 19) .name]]])
          .body]]

theorem definitions_sampleFunction :
    (ofTree sampleText sampleFunction).scopes.map (fun scope =>
        ((ofTree sampleText sampleFunction).variablesOf scope).map Variable.name) =
        [["f"], ["a", "b"]] ∧
      (ofTree sampleText sampleFunction).MatchesSites sampleFunction :=
  ⟨by decide +kernel, definitions_match_visible_sites sampleText rfl⟩

/-- The text of a function with a rest parameter behind a comment in the style of web
pages. -/
def hiddenParameterText : Source := "function f(...<!-- c\na) \x7b\x7d".toList

/-- The tree of the text. -/
def hiddenParameterTree : Node :=
  .ofChildren .program 0 26
    [.ofChildren .functionDeclaration 0 26
      [Node.inField (.leaf .identifier 9 10) .name,
        Node.inField
          (.ofChildren .formalParameters 10 23
            [.ofChildren .restPattern 11 22 [.leaf .htmlComment 14 20, .leaf .identifier 21 22]])
          .parameters,
        Node.inField (.leaf .statementBlock 24 26) .body]]

/-- The parameter is declared, but no scope defines it. -/
theorem hidden_parameter_unrecorded :
    ∃ node ∈ hiddenParameterTree.cursors, ∃ block definition,
      definition.name ∈ hiddenParameterTree.cursors ∧
        node.Introduces Cursor.Declares hiddenParameterText (some block) definition ∧
        ∀ holder name,
          ¬ (ofTree hiddenParameterText hiddenParameterTree).Defines holder name definition := by
  obtain ⟨function, functionFound⟩ : ∃ function,
      (Cursor.root hiddenParameterTree).child? 0 = some function := ⟨_, rfl⟩
  obtain ⟨parameters, parametersFound⟩ : ∃ parameters, function.child? 1 = some parameters := by
    cases functionFound
    exact ⟨_, rfl⟩
  obtain ⟨rest, restFound⟩ : ∃ rest, parameters.child? 0 = some rest := by
    cases functionFound
    cases parametersFound
    exact ⟨_, rfl⟩
  obtain ⟨name, nameFound⟩ : ∃ name, rest.child? 1 = some name := by
    cases functionFound
    cases parametersFound
    cases restFound
    exact ⟨_, rfl⟩
  have functionLies := Cursor.LiesIn.root.child functionFound
  have nameLies := ((functionLies.child parametersFound).child restFound).child nameFound
  have nameMem := Cursor.mem_children_iff.mpr ⟨1, nameFound⟩
  cases functionFound
  cases parametersFound
  cases restFound
  cases nameFound
  have declares := (Cursor.declares_self (Or.inl rfl)).of_child nameLies nameMem (by decide)
    ⟨Cursor.not_isDefaultValue nameMem (by decide), Cursor.not_isKey nameMem (by decide)⟩
  have others : ∀ definition ∈ (ofTree hiddenParameterText hiddenParameterTree).definitions,
      definition.name.span ≠ ⟨21, 22⟩ := by decide +kernel
  refine ⟨_, Cursor.mem_cursors_iff.mpr functionLies, _, _, Cursor.mem_cursors_iff.mpr nameLies,
    .listedParameter rfl rfl rfl (List.mem_of_getElem? (i := 0) rfl) declares, ?_⟩
  rintro holder name ⟨scope, -, -, entry, -, -, isHeld⟩
  obtain ⟨number, -, found⟩ := mem_definitionsOf_iff.mp isHeld
  exact others _ (List.mem_of_getElem? found) rfl

end ScopeTable

end AssertLint
