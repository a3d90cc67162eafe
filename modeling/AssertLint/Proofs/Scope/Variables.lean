import AssertLint.Proofs.Scope.Sites
import Mathlib.Data.List.Induction
import Mathlib.Data.List.Nodup

/-!
# Variables and their definitions

A scope finds the variable of a name, or makes one, and puts a definition behind
the others of that variable.  This happens over and over while scopes are opened
and closed around it.  The walk over a tree is taken apart here into its single
operations, and after each of them the variables are in order: every definition
that was made is filed once, under its name, in one variable of one scope, and
what was filed before is still where it was.
-/

namespace AssertLint

/-- One operation of building scopes. -/
inductive Operation where
  | define (binding : Binding)
  | openScope (node : Cursor)
  | closeScope (node : Cursor)

/-- The definition that an operation is to make. -/
def Operation.definition? : Operation → Option Definition
  | define binding => some binding.definition
  | openScope _ | closeScope _ => none

/-- The operations of an event, in order. -/
def Event.operations (source : Source) : Event → List Operation
  | .enter node =>
      node.outerBindings.map .define ++ .openScope node :: (node.innerBindings source).map .define
  | .leave node => [.closeScope node]

/-- The operations of a walk over a tree, in order. -/
def Node.operations (source : Source) (tree : Node) : List Operation :=
  tree.walk.flatMap (Event.operations source)

namespace ScopeBuilder

/-- What an operation does. -/
def perform (builder : ScopeBuilder) : Operation → ScopeBuilder
  | .define binding => builder.record binding
  | .openScope node => builder.openFor node
  | .closeScope node => builder.close node

/-- The builder after some operations. -/
def performed (source : Source) (operations : List Operation) : ScopeBuilder :=
  operations.foldl perform (start source)

theorem performed_concat (source : Source) (operations : List Operation) (operation : Operation) :
    performed source (operations ++ [operation]) =
      (performed source operations).perform operation :=
  List.foldl_append

theorem foldl_perform_operations (builder : ScopeBuilder) (event : Event) :
    (event.operations builder.table.source).foldl perform builder = builder.step event := by
  cases event with
  | enter node =>
      rw [Event.operations, List.foldl_append, List.foldl_cons, List.foldl_map, List.foldl_map,
        step, enter_eq]
      rfl
  | leave node => rfl

theorem foldl_perform_flatMap (builder : ScopeBuilder) (events : List Event) :
    (events.flatMap (Event.operations builder.table.source)).foldl perform builder =
      events.foldl step builder := by
  induction events generalizing builder with
  | nil => rfl
  | cons event rest ih =>
      rw [List.flatMap_cons, List.foldl_append, foldl_perform_operations, List.foldl_cons, ← ih,
        source_step]

end ScopeBuilder

/-! ## One more definition -/

namespace ScopeTable

/-- One more definition in a scope.  The variable to which its name leads there gets the
definition and its name node behind the others; or a variable is made with them, behind the
other variables, listed behind the others of the scope and known there by the name.  All else
is as before. -/
inductive Appends (table later : ScopeTable) (number : ScopeId) (definition : Definition) :
    Prop where
  | redeclared {scope : Scope} {id : VariableId} {entry : Variable}
      (inScope : table.scopes[number]? = some scope)
      (isNamed : scope.named? (table.text definition.name) = some id)
      (before : table.entries[id]? = some entry)
      (after : later =
        { table with
          entries := table.entries.set id
            { entry with
              identifiers := entry.identifiers ++ [definition.name]
              definitions := entry.definitions ++ [table.definitions.length] }
          definitions := table.definitions ++ [definition] }) :
      Appends table later number definition
  | declared {scope : Scope} (inScope : table.scopes[number]? = some scope)
      (isNew : scope.named? (table.text definition.name) = none)
      (after : later =
        { table with
          scopes := table.scopes.set number
            { scope with
              byName := (table.text definition.name, table.entries.length) :: scope.byName
              entries := scope.entries ++ [table.entries.length] }
          entries := table.entries ++
            [⟨table.text definition.name, [definition.name], [table.definitions.length], number⟩]
          definitions := table.definitions ++ [definition] }) :
      Appends table later number definition

theorem modify_eq_set {α : Type} {items : List α} {place : Nat} {item : α} (change : α → α)
    (found : items[place]? = some item) :
    items.modify place change = items.set place (change item) := by
  simp [List.modify_eq_set_getElem?, found]

theorem IsFiled.appends_define {table : ScopeTable} (filed : table.IsFiled) {number : ScopeId}
    (isScope : number < table.scopes.length) (definition : Definition) :
    table.Appends (table.define number definition) number definition := by
  obtain ⟨scope, inScope⟩ : ∃ scope, table.scopes[number]? = some scope :=
    ⟨_, List.getElem?_eq_getElem isScope⟩
  have lookup : table.scopes[number]?.bind (·.named? (table.text definition.name)) =
      scope.named? (table.text definition.name) := by
    rw [inScope, Option.bind_some]
  cases isNamed : scope.named? (table.text definition.name) with
  | some id =>
      obtain ⟨entry, before, -⟩ := (filed.named number scope inScope _ id).mp isNamed
      refine .redeclared inScope isNamed before ?_
      rw [define_of_named? (lookup.trans isNamed), modify_eq_set _ before]
      rfl
  | none =>
      refine .declared inScope isNamed ?_
      rw [define_of_named?_eq_none (lookup.trans isNamed), modify_eq_set _ inScope]
      rfl

/-- What a table has is still in a later one: its definitions, its variables, each with its
name, its scope and its definitions in front, and its scopes, with the variables in front of
their lists and the names that led to one. -/
structure Grows (table later : ScopeTable) : Prop where
  definitions : table.definitions <+: later.definitions
  entries : ∀ (id : VariableId) (entry : Variable), table.entries[id]? = some entry →
    ∃ identifiers numbers, later.entries[id]? =
      some ⟨entry.name, entry.identifiers ++ identifiers, entry.definitions ++ numbers,
        entry.scope⟩
  scopes : ∀ (number : ScopeId) (scope : Scope), table.scopes[number]? = some scope →
    ∃ grown, later.scopes[number]? = some grown ∧ scope.entries <+: grown.entries ∧
      ∀ name id, scope.named? name = some id → grown.named? name = some id

theorem Grows.trans {table middle later : ScopeTable} (first : table.Grows middle)
    (second : middle.Grows later) : table.Grows later := by
  constructor
  case definitions => exact first.definitions.trans second.definitions
  case entries =>
    intro id entry found
    obtain ⟨identifiers, numbers, middleFound⟩ := first.entries id entry found
    obtain ⟨identifiers', numbers', laterFound⟩ := second.entries id _ middleFound
    exact ⟨identifiers ++ identifiers', numbers ++ numbers', by
      rw [laterFound, List.append_assoc, List.append_assoc]⟩
  case scopes =>
    intro number scope found
    obtain ⟨grown, grownFound, isFront, names⟩ := first.scopes number scope found
    obtain ⟨grown', grownFound', isFront', names'⟩ := second.scopes number grown grownFound
    exact ⟨grown', grownFound', isFront.trans isFront',
      fun name id isNamed => names' name id (names name id isNamed)⟩

/-- The variables of a table are those of a later one, scope by scope. -/
structure SameVariables (table later : ScopeTable) : Prop where
  definitions : later.definitions = table.definitions
  entries : later.entries = table.entries
  scopes : ∀ (number : ScopeId) (scope : Scope), table.scopes[number]? = some scope →
    ∃ same, later.scopes[number]? = some same ∧ same.byName = scope.byName ∧
      same.entries = scope.entries

theorem SameVariables.grows {table later : ScopeTable} (same : table.SameVariables later) :
    table.Grows later := by
  constructor
  case definitions => exact same.definitions ▸ List.prefix_rfl
  case entries =>
    intro id entry found
    refine ⟨[], [], ?_⟩
    rw [same.entries, found, List.append_nil, List.append_nil]
  case scopes =>
    intro number scope found
    obtain ⟨grown, grownFound, names, entriesEq⟩ := same.scopes number scope found
    refine ⟨grown, grownFound, entriesEq ▸ List.prefix_rfl, ?_⟩
    intro name id isNamed
    rw [Scope.named?, names]
    exact isNamed

theorem SameVariables.refl (table : ScopeTable) : table.SameVariables table :=
  ⟨rfl, rfl, fun _ scope found => ⟨scope, found, rfl, rfl⟩⟩

theorem Appends.grows {table later : ScopeTable} {number : ScopeId} {definition : Definition}
    (appends : table.Appends later number definition) : table.Grows later := by
  cases appends with
  | @redeclared scope id entry inScope isNamed before after =>
      subst after
      refine ⟨List.prefix_append _ _, ?_, ?_⟩
      · intro other old found
        by_cases isHere : id = other
        · subst isHere
          obtain rfl := Option.some.inj (before.symm.trans found)
          have bound := (List.getElem?_eq_some_iff.mp found).1
          exact ⟨_, _, List.getElem?_set_self bound⟩
        · refine ⟨[], [], ?_⟩
          rw [List.getElem?_set_ne isHere, found, List.append_nil, List.append_nil]
      · exact fun place old found => ⟨old, found, List.prefix_rfl, fun _ _ isNamed => isNamed⟩
  | @declared scope inScope isNew after =>
      subst after
      refine ⟨List.prefix_append _ _, ?_, ?_⟩
      · intro id entry found
        refine ⟨[], [], ?_⟩
        have bound := (List.getElem?_eq_some_iff.mp found).1
        rw [List.getElem?_append_left bound, found, List.append_nil, List.append_nil]
      · intro place old found
        by_cases isHere : number = place
        · subst isHere
          obtain rfl := Option.some.inj (inScope.symm.trans found)
          have bound := (List.getElem?_eq_some_iff.mp found).1
          refine ⟨_, List.getElem?_set_self bound, List.prefix_append _ _, ?_⟩
          intro name id isNamed
          -- The name that led to a variable is another one than the new name.
          have isOther : name ≠ table.text definition.name := by
            rintro rfl
            simp [isNew] at isNamed
          rw [Scope.named?, List.lookup_cons, beq_false_of_ne isOther]
          exact isNamed
        · exact ⟨old, by rw [List.getElem?_set_ne isHere, found], List.prefix_rfl,
            fun _ _ isNamed => isNamed⟩

end ScopeTable

namespace ScopeBuilder

/-! ## Numbers of scopes -/

/-- All numbers of scopes that a builder holds are those of scopes. -/
structure InRange (builder : ScopeBuilder) : Prop where
  current : ∀ id, builder.current? = some id → id < builder.table.scopes.length
  uppers : ∀ scope ∈ builder.table.scopes, ∀ upper, scope.upper? = some upper →
    upper < builder.table.scopes.length
  variableScopes : ∀ scope ∈ builder.table.scopes,
    scope.variableScope < builder.table.scopes.length

theorem inRange_of_bare_eq {builder later : ScopeBuilder} (bareEq : later.bare = builder.bare)
    (inRange : builder.InRange) : later.InRange := by
  have scopesEq : later.table.scopes.map Scope.bare = builder.table.scopes.map Scope.bare :=
    congrArg (·.table.scopes) bareEq
  have lengthEq : later.table.scopes.length = builder.table.scopes.length := by
    simpa using congrArg List.length scopesEq
  have exists_old {scope : Scope} (member : scope ∈ later.table.scopes) :
      ∃ old ∈ builder.table.scopes, old.bare = scope.bare := by
    have bareMem : scope.bare ∈ later.table.scopes.map Scope.bare := List.mem_map_of_mem member
    rw [scopesEq] at bareMem
    exact List.mem_map.mp bareMem
  constructor
  case current =>
    intro id isCurrent
    rw [lengthEq]
    exact inRange.current id ((congrArg (·.current?) bareEq).symm.trans isCurrent)
  case uppers =>
    intro scope member upper isUpper
    obtain ⟨old, oldMem, same⟩ := exists_old member
    rw [lengthEq]
    exact inRange.uppers old oldMem upper ((congrArg Scope.upper? same).trans isUpper)
  case variableScopes =>
    intro scope member
    obtain ⟨old, oldMem, same⟩ := exists_old member
    have sameScope : old.bare.variableScope = scope.bare.variableScope :=
      congrArg Scope.variableScope same
    rw [lengthEq]
    exact sameScope ▸ inRange.variableScopes old oldMem

theorem InRange.scopeFor?_lt {builder : ScopeBuilder} (inRange : builder.InRange) {place : Place}
    {id : ScopeId} (found : builder.scopeFor? place = some id) :
    id < builder.table.scopes.length := by
  cases place with
  | outside | inside => exact inRange.current id found
  | hoisted =>
      obtain ⟨current, -, hoists⟩ := Option.bind_eq_some_iff.mp found
      obtain ⟨scope, scopeFound, rfl⟩ := Option.map_eq_some_iff.mp hoists
      exact inRange.variableScopes scope (List.mem_of_getElem? scopeFound)

theorem InRange.openFor {builder : ScopeBuilder} (inRange : builder.InRange) (node : Cursor) :
    (builder.openFor node).InRange := by
  unfold ScopeBuilder.openFor
  cases node.scopeType? with
  | none => exact inRange
  | some type =>
      constructor
      case current =>
        intro id isCurrent
        obtain rfl := Option.some.inj isCurrent
        rw [length_nest]
        exact Nat.lt_succ_self _
      case uppers =>
        intro scope member upper isUpper
        rw [length_nest]
        apply Nat.lt_succ_of_lt
        rcases eq_newScope_or_exists_of_mem_nest member with rfl | ⟨old, oldMem, agrees⟩
        · exact inRange.current upper isUpper
        · exact inRange.uppers old oldMem upper (agrees.upper? ▸ isUpper)
      case variableScopes =>
        intro scope member
        rw [length_nest]
        rcases eq_newScope_or_exists_of_mem_nest member with rfl | ⟨old, oldMem, agrees⟩
        · simp only [newScope]
          split
          · exact Nat.lt_succ_self _
          · cases hoists : builder.currentVariableScope? with
            | none => exact Nat.lt_succ_self _
            | some id =>
                have isPlace : builder.scopeFor? .hoisted = some id := hoists
                exact Nat.lt_succ_of_lt (inRange.scopeFor?_lt isPlace)
        · rw [agrees.variableScope]
          exact Nat.lt_succ_of_lt (inRange.variableScopes old oldMem)

theorem InRange.lt_of_mem_chainWithin {builder : ScopeBuilder} (inRange : builder.InRange)
    {bound : Nat} {id outer : ScopeId} (isScope : id < builder.table.scopes.length)
    (member : outer ∈ builder.table.chainWithin bound id) :
    outer < builder.table.scopes.length := by
  induction bound generalizing id with
  | zero => simp [ScopeTable.chainWithin] at member
  | succ bound ih =>
      rw [ScopeTable.chainWithin, List.mem_cons] at member
      rcases member with rfl | further
      · exact isScope
      · split at further
        · next upper isUpper =>
            obtain ⟨scope, found, upperEq⟩ := Option.bind_eq_some_iff.mp isUpper
            exact ih (inRange.uppers scope (List.mem_of_getElem? found) upper upperEq) further
        · simp at further

theorem InRange.close {builder : ScopeBuilder} (inRange : builder.InRange) (node : Cursor) :
    (builder.close node).InRange := by
  refine ⟨?_, inRange.uppers, inRange.variableScopes⟩
  intro outer isCurrent
  obtain ⟨id, wasCurrent, found⟩ := Option.bind_eq_some_iff.mp isCurrent
  exact inRange.lt_of_mem_chainWithin (inRange.current id wasCurrent)
    (List.mem_of_find?_eq_some found)


/-! ## Operation after operation -/

theorem sameVariables_openFor (builder : ScopeBuilder) (node : Cursor) :
    builder.table.SameVariables (builder.openFor node).table := by
  unfold openFor
  cases node.scopeType? with
  | none => exact .refl builder.table
  | some type =>
      refine ⟨rfl, rfl, ?_⟩
      intro number scope found
      have bound := (List.getElem?_eq_some_iff.mp found).1
      have isOld : number ≠ builder.table.scopes.length := Nat.ne_of_lt bound
      obtain ⟨later, laterFound⟩ : ∃ later,
          (builder.nest type node).table.scopes[number]? = some later :=
        ⟨_, List.getElem?_eq_getElem (by rw [length_nest]; exact Nat.lt_succ_of_lt bound)⟩
      rcases eq_newScope_or_exists_of_nest laterFound with ⟨isNew, -⟩ | ⟨old, oldFound, agrees, -⟩
      · exact absurd isNew isOld
      · obtain rfl := Option.some.inj (found.symm.trans oldFound)
        exact ⟨later, laterFound, agrees.byName, agrees.entries⟩

theorem sameVariables_of_definition?_eq_none (builder : ScopeBuilder) {operation : Operation}
    (makesNone : operation.definition? = none) :
    builder.table.SameVariables (builder.perform operation).table := by
  cases operation with
  | define binding => simp [Operation.definition?] at makesNone
  | openScope node => exact builder.sameVariables_openFor node
  | closeScope node => exact .refl builder.table

/-- What every operation keeps. -/
structure Keeps (builder : ScopeBuilder) : Prop where
  inRange : builder.InRange
  filed : builder.table.IsFiled

namespace Keeps

variable {builder : ScopeBuilder}

theorem appends (keeps : builder.Keeps) {binding : Binding} {number : ScopeId}
    (isPlace : builder.scopeFor? binding.place = some number) :
    builder.table.Appends (builder.perform (.define binding)).table number
      binding.definition := by
  have recorded : (builder.perform (.define binding)).table =
      builder.table.define number binding.definition := by
    rw [ScopeBuilder.perform, record, isPlace]
    rfl
  rw [recorded]
  exact keeps.filed.appends_define (keeps.inRange.scopeFor?_lt isPlace) _

theorem perform (keeps : builder.Keeps) (operation : Operation) :
    (builder.perform operation).Keeps := by
  cases operation with
  | define binding =>
      refine ⟨inRange_of_bare_eq (bare_define _ _ _) keeps.inRange, ?_⟩
      rw [ScopeBuilder.perform, record]
      cases isPlace : builder.scopeFor? binding.place with
      | none => exact keeps.filed
      | some number => exact keeps.filed.define (keeps.inRange.scopeFor?_lt isPlace) _
  | openScope node => exact ⟨keeps.inRange.openFor node, keeps.filed.openFor node⟩
  | closeScope node => exact ⟨keeps.inRange.close node, keeps.filed⟩

theorem grows (keeps : builder.Keeps) (operation : Operation) :
    builder.table.Grows (builder.perform operation).table := by
  cases operation with
  | define binding =>
      cases isPlace : builder.scopeFor? binding.place with
      | none =>
          rw [ScopeBuilder.perform, record, isPlace]
          exact (ScopeTable.SameVariables.refl builder.table).grows
      | some number => exact (keeps.appends isPlace).grows
  | openScope node | closeScope node =>
      exact (builder.sameVariables_of_definition?_eq_none rfl).grows

end Keeps

theorem keeps_performed (source : Source) (operations : List Operation) :
    (performed source operations).Keeps := by
  induction operations using List.reverseRecOn with
  | nil =>
      refine ⟨⟨?_, ?_, ?_⟩, ScopeTable.isFiled_start source⟩
      all_goals simp [performed, start]
  | append_singleton operations operation ih =>
      rw [performed_concat]
      exact ih.perform operation

theorem grows_performed (source : Source) (before further : List Operation) :
    (performed source before).table.Grows (performed source (before ++ further)).table := by
  induction further using List.reverseRecOn with
  | nil =>
      rw [List.append_nil]
      exact (ScopeTable.SameVariables.refl _).grows
  | append_singleton further operation ih =>
      rw [← List.append_assoc, performed_concat]
      exact ih.trans ((keeps_performed source (before ++ further)).grows operation)

end ScopeBuilder

/-! ## What holds after each operation -/

namespace ScopeTable

/-- The variables of a table are in order. -/
structure InOrder (table : ScopeTable) : Prop where
  /-- A scope lists variables, each once, and no two of one name. -/
  listed : ∀ scope ∈ table.scopes, scope.entries.Nodup ∧ ∀ id ∈ scope.entries,
    id < table.entries.length
  distinct : ∀ scope ∈ table.scopes, ((table.variablesOf scope).map Variable.name).Nodup
  /-- A name leads to the variable of the scope that has the name, if there is one. -/
  found : ∀ scope ∈ table.scopes, ∀ name id, scope.named? name = some id ↔
    id ∈ scope.entries ∧ ∃ entry, table.entries[id]? = some entry ∧ entry.name = name
  absent : ∀ scope ∈ table.scopes, ∀ name, scope.named? name = none ↔
    ∀ entry ∈ table.variablesOf scope, entry.name ≠ name
  /-- The scope of a variable is the one that lists it. -/
  owner : ∀ (id : VariableId) (entry : Variable), table.entries[id]? = some entry →
    entry.scope < table.scopes.length ∧
      ∀ (number : ScopeId) (scope : Scope), table.scopes[number]? = some scope →
        (id ∈ scope.entries ↔ number = entry.scope)
  /-- A variable has definitions, each with the node at the same place among those that
  spell its name. -/
  nonempty : ∀ entry ∈ table.entries, entry.definitions ≠ [] ∧ entry.identifiers ≠ []
  parallel : ∀ entry ∈ table.entries, entry.identifiers.length = entry.definitions.length
  spelled : ∀ entry ∈ table.entries, ∀ (place : Nat) (number : DefinitionId),
    entry.definitions[place]? = some number →
      ∃ definition, table.definitions[number]? = some definition ∧
        entry.identifiers[place]? = some definition.name ∧
        table.text definition.name = entry.name
  /-- A definition is of one variable, once. -/
  once : ∀ number < table.definitions.length,
    ∃! id : VariableId, ∃ entry, table.entries[id]? = some entry ∧ number ∈ entry.definitions
  onlyOnce : ∀ entry ∈ table.entries, entry.definitions.Nodup

theorem index_eq_of_mem_flatMap {α β : Type} {part : α → List β} {entries : List α}
    (distinct : (entries.flatMap part).Nodup) {index other : Nat} {entry entry' : α}
    (found : entries[index]? = some entry) (found' : entries[other]? = some entry') {item : β}
    (member : item ∈ part entry) (member' : item ∈ part entry') : index = other := by
  obtain ⟨bound, rfl⟩ := List.getElem?_eq_some_iff.mp found
  obtain ⟨bound', rfl⟩ := List.getElem?_eq_some_iff.mp found'
  have apart := List.pairwise_iff_getElem.mp (List.nodup_flatMap.mp distinct).2
  rcases Nat.lt_trichotomy index other with before | same | behind
  · exact absurd member' (apart index other bound bound' before member)
  · exact same
  · exact absurd member (apart other index bound' bound behind member')

theorem getElem?_related {α β : Type} {related : α → β → Prop} {items : List α} {others : List β}
    (pairs : List.Forall₂ related items others) {place : Nat} {item : α}
    (found : items[place]? = some item) :
    ∃ other, others[place]? = some other ∧ related item other := by
  induction pairs generalizing place with
  | nil => simp at found
  | cons isRelated rest ih =>
      cases place with
      | zero =>
          obtain rfl := Option.some.inj found
          exact ⟨_, rfl, isRelated⟩
      | succ place => exact ih found

namespace IsFiled

variable {table : ScopeTable}

theorem named?_eq_some_iff (filed : table.IsFiled) {scope : Scope} (member : scope ∈ table.scopes)
    {name : String} {id : VariableId} :
    scope.named? name = some id ↔
      id ∈ scope.entries ∧ ∃ entry, table.entries[id]? = some entry ∧ entry.name = name := by
  obtain ⟨number, found⟩ := List.mem_iff_getElem?.mp member
  rw [filed.named number scope found, filed.listed number scope found]
  constructor
  · rintro ⟨entry, entryFound, isHere, isName⟩
    exact ⟨⟨entry, entryFound, isHere⟩, entry, entryFound, isName⟩
  · rintro ⟨⟨entry, entryFound, isHere⟩, entry', entryFound', isName⟩
    obtain rfl := Option.some.inj (entryFound.symm.trans entryFound')
    exact ⟨entry, entryFound, isHere, isName⟩

/-- Two variables of a scope with one name would both be what the name leads to. -/
theorem nodup_names (filed : table.IsFiled) {scope : Scope} (member : scope ∈ table.scopes) :
    ((table.variablesOf scope).map Variable.name).Nodup := by
  rw [variablesOf, List.map_filterMap, List.Nodup, List.pairwise_filterMap]
  refine (filed.listedOnce scope member).imp_of_mem ?_
  rintro id other isListed isListed' differ name isName _ isName' rfl
  obtain ⟨entry, found, nameEq⟩ := Option.map_eq_some_iff.mp isName
  obtain ⟨entry', found', nameEq'⟩ := Option.map_eq_some_iff.mp isName'
  have leads := (filed.named?_eq_some_iff member).mpr ⟨isListed, entry, found, nameEq⟩
  have leads' := (filed.named?_eq_some_iff member).mpr ⟨isListed', entry', found', nameEq'⟩
  exact differ (Option.some.inj (leads.symm.trans leads'))

theorem inOrder (filed : table.IsFiled) : table.InOrder := by
  have distinct : (table.entries.flatMap Variable.definitions).Nodup :=
    filed.once.nodup_iff.mpr List.nodup_range
  constructor
  case listed =>
    intro scope member
    refine ⟨filed.listedOnce scope member, ?_⟩
    intro id isListed
    obtain ⟨number, found⟩ := List.mem_iff_getElem?.mp member
    obtain ⟨entry, entryFound, -⟩ := (filed.listed number scope found id).mp isListed
    exact (List.getElem?_eq_some_iff.mp entryFound).1
  case distinct => exact fun scope member => filed.nodup_names member
  case found => exact fun scope member name id => filed.named?_eq_some_iff member
  case absent =>
    intro scope member name
    rw [Option.eq_none_iff_forall_ne_some]
    constructor
    · intro leadsNowhere entry isVariable isName
      obtain ⟨id, isListed, entryFound⟩ := mem_variablesOf_iff.mp isVariable
      exact leadsNowhere id
        ((filed.named?_eq_some_iff member).mpr ⟨isListed, entry, entryFound, isName⟩)
    · intro allOther id isNamed
      obtain ⟨isListed, entry, entryFound, isName⟩ := (filed.named?_eq_some_iff member).mp isNamed
      exact allOther entry (mem_variablesOf_iff.mpr ⟨id, isListed, entryFound⟩) isName
  case owner =>
    intro id entry found
    refine ⟨filed.inScope entry (List.mem_of_getElem? found), ?_⟩
    intro number scope scopeFound
    rw [filed.listed number scope scopeFound]
    constructor
    · rintro ⟨entry', found', rfl⟩
      rw [Option.some.inj (found.symm.trans found')]
    · rintro rfl
      exact ⟨entry, found, rfl⟩
  case nonempty =>
    intro entry member
    have hasDefinitions := filed.nonempty entry member
    refine ⟨hasDefinitions, ?_⟩
    intro noIdentifiers
    have lengthEq := (filed.spelled entry member).length_eq
    rw [noIdentifiers, List.length_nil] at lengthEq
    exact hasDefinitions (List.eq_nil_of_length_eq_zero lengthEq)
  case parallel => exact fun entry member => (filed.spelled entry member).length_eq.symm
  case spelled =>
    intro entry member place number atPlace
    obtain ⟨identifier, identifierAt, definition, definitionFound, rfl, isName⟩ :=
      getElem?_related (filed.spelled entry member) atPlace
    exact ⟨definition, definitionFound, identifierAt, isName⟩
  case once =>
    intro number bound
    obtain ⟨entry, entryMem, isHeld⟩ :=
      filed.exists_entry_of_definition (List.getElem?_eq_getElem bound)
    obtain ⟨id, found⟩ := List.mem_iff_getElem?.mp entryMem
    refine ⟨id, ⟨entry, found, isHeld⟩, ?_⟩
    rintro other ⟨entry', found', isHeld'⟩
    exact index_eq_of_mem_flatMap distinct found' found isHeld' isHeld
  case onlyOnce => exact fun entry member => (List.nodup_flatMap.mp distinct).1 entry member

end IsFiled

end ScopeTable

/-- The variables are kept in order through a whole walk. -/
structure KeepsVariables (source : Source) (tree : Node) : Prop where
  /-- The operations build the scopes of the tree. -/
  built : (ScopeBuilder.performed source (tree.operations source)).table =
    ScopeTable.ofTree source tree
  /-- After every operation, the variables are in order. -/
  inOrder : ∀ before, before <+: tree.operations source →
    (ScopeBuilder.performed source before).table.InOrder
  /-- A definition in a scope goes to the variable of its name there. -/
  appends : ∀ before binding, before ++ [.define binding] <+: tree.operations source →
    ∀ number, (ScopeBuilder.performed source before).scopeFor? binding.place = some number →
      (ScopeBuilder.performed source before).table.Appends
        (ScopeBuilder.performed source (before ++ [.define binding])).table number
        binding.definition
  /-- A definition outside all scopes changes nothing. -/
  drops : ∀ before binding, before ++ [.define binding] <+: tree.operations source →
    (ScopeBuilder.performed source before).scopeFor? binding.place = none →
      ScopeBuilder.performed source (before ++ [.define binding]) =
        ScopeBuilder.performed source before
  /-- Opening and closing scopes leaves the variables alone. -/
  stays : ∀ before operation, before ++ [operation] <+: tree.operations source →
    operation.definition? = none →
      (ScopeBuilder.performed source before).table.SameVariables
        (ScopeBuilder.performed source (before ++ [operation])).table
  /-- Variables keep their numbers, names, scopes and earlier definitions. -/
  grows : ∀ before later, before <+: later → later <+: tree.operations source →
    (ScopeBuilder.performed source before).table.Grows (ScopeBuilder.performed source later).table

/-- Whatever the tree, the variables are in order after each operation. -/
theorem variables_kept_in_order (source : Source) (tree : Node) : KeepsVariables source tree := by
  constructor
  case built =>
    exact congrArg ScopeBuilder.table
      (ScopeBuilder.foldl_perform_flatMap (ScopeBuilder.start source) tree.walk)
  case inOrder =>
    intro before _
    exact (ScopeBuilder.keeps_performed source before).filed.inOrder
  case appends =>
    intro before binding _ number isPlace
    rw [ScopeBuilder.performed_concat]
    exact (ScopeBuilder.keeps_performed source before).appends isPlace
  case drops =>
    intro before binding _ isPlace
    rw [ScopeBuilder.performed_concat, ScopeBuilder.perform, ScopeBuilder.record, isPlace]
    rfl
  case stays =>
    intro before operation _ makesNone
    rw [ScopeBuilder.performed_concat]
    exact ScopeBuilder.sameVariables_of_definition?_eq_none _ makesNone
  case grows =>
    rintro before later ⟨further, rfl⟩ _
    exact ScopeBuilder.grows_performed source before further

/-- The text `var a;var a`. -/
def redeclaringText : Source := "var a;var a".toList

/-- The tree of the text. -/
def redeclaringTree : Node :=
  .ofChildren .program 0 11
    [.ofChildren .variableDeclaration 0 6
        [.ofChildren .variableDeclarator 4 5 [Node.inField (.leaf .identifier 4 5) .name]],
      .ofChildren .variableDeclaration 6 11
        [.ofChildren .variableDeclarator 10 11 [Node.inField (.leaf .identifier 10 11) .name]]]

/-- Both declarations are filed under the one variable, in order. -/
theorem redeclaringTree_kept_in_order :
    (ScopeTable.ofTree redeclaringText redeclaringTree).entries.map (fun entry =>
        (entry.name, entry.identifiers.map Cursor.span, entry.definitions, entry.scope)) =
      [("a", [⟨4, 5⟩, ⟨10, 11⟩], [0, 1], 0)] ∧
    KeepsVariables redeclaringText redeclaringTree :=
  ⟨by decide +kernel, variables_kept_in_order redeclaringText redeclaringTree⟩

end AssertLint
