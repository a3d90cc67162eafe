import AssertLint.Proofs.Scope.Links
import Mathlib.Data.List.Forall2
import Mathlib.Data.List.Perm.Basic

/-!
# How variables and definitions are filed

A scope knows its variables by their names and in a list, a variable knows its scope
and its definitions, and a definition is known by its number.  All of this is written
down in separate places.  This file states how the places agree and shows that a
definition, which changes several of them one after the other, leaves them in
agreement.
-/

namespace AssertLint

namespace ScopeTable

/-! ## What a definition changes -/

section Define

variable {table : ScopeTable} {number : ScopeId} {definition : Definition}

theorem modify_append_length {α : Type} (change : α → α) (front : List α) (last : α) :
    (front ++ [last]).modify front.length change = front ++ [change last] := by
  induction front with
  | nil => rfl
  | cons first rest ih =>
      rw [List.cons_append, List.length_cons, List.modify_succ_cons, ih, List.cons_append]

/-- A name that leads to a variable gets one more definition there. -/
theorem define_of_named? {id : VariableId}
    (found : table.scopes[number]?.bind (·.named? (table.text definition.name)) = some id) :
    table.define number definition =
      { table with
        entries := table.entries.modify id fun entry =>
          (entry.pushDefinition table.definitions.length).pushIdentifier definition.name
        definitions := table.definitions ++ [definition] } := by
  have foundToo : (table.pushDefinition definition).scopes[number]?.bind
      (·.named? (table.text definition.name)) = some id := found
  rw [define, variableFor, foundToo]
  rfl

/-- A name that leads to no variable gets a new one, with one definition. -/
theorem define_of_named?_eq_none
    (isNew : table.scopes[number]?.bind (·.named? (table.text definition.name)) = none) :
    table.define number definition =
      { table with
        scopes := table.scopes.modify number fun scope =>
          (scope.insertName (table.text definition.name) table.entries.length).pushVariable
            table.entries.length
        entries := table.entries ++
          [⟨table.text definition.name, [definition.name], [table.definitions.length], number⟩]
        definitions := table.definitions ++ [definition] } := by
  have isNewToo : (table.pushDefinition definition).scopes[number]?.bind
      (·.named? (table.text definition.name)) = none := isNew
  rw [define, variableFor, isNewToo]
  simp only [makeVariable, file, pushDefinition, modify_append_length]
  rfl

end Define

/-! ## Scopes and their variables -/

/-- The scopes and the variables agree: a scope lists the variables that are in it, each
once, and a name leads to the variable of that name. -/
structure ListsVariables (table : ScopeTable) : Prop where
  listed : ∀ (number : ScopeId) (scope : Scope), table.scopes[number]? = some scope →
    ∀ id, id ∈ scope.entries ↔
      ∃ entry, table.entries[id]? = some entry ∧ entry.scope = number
  listedOnce : ∀ scope ∈ table.scopes, scope.entries.Nodup
  named : ∀ (number : ScopeId) (scope : Scope), table.scopes[number]? = some scope →
    ∀ name id, scope.named? name = some id ↔
      ∃ entry, table.entries[id]? = some entry ∧ entry.scope = number ∧ entry.name = name
  inScope : ∀ entry ∈ table.entries, entry.scope < table.scopes.length

theorem exists_getElem?_modify_iff {α : Type} {change : α → α} {holds : α → Prop}
    (keeps : ∀ item, holds (change item) ↔ holds item) (items : List α) (place other : Nat) :
    (∃ item, (items.modify place change)[other]? = some item ∧ holds item) ↔
      ∃ item, items[other]? = some item ∧ holds item := by
  rw [List.getElem?_modify]
  cases items[other]? with
  | none => simp
  | some item => by_cases isHere : place = other <;> simp [isHere, keeps]

theorem getElem?_append_singleton_eq_some_iff {α : Type} {items : List α} {last item : α}
    {place : Nat} :
    (items ++ [last])[place]? = some item ↔
      items[place]? = some item ∨ place = items.length ∧ last = item := by
  rcases Nat.lt_trichotomy place items.length with before | isLast | beyond
  · simp [List.getElem?_append_left before, Nat.ne_of_lt before]
  · simp [isLast]
  · have noOld : items[place]? = none := List.getElem?_eq_none (Nat.le_of_lt beyond)
    have noneThere : (items ++ [last])[place]? = none :=
      List.getElem?_eq_none (by rw [List.length_append, List.length_singleton]; omega)
    simp [noneThere, noOld, Nat.ne_of_gt beyond]

namespace ListsVariables

variable {table : ScopeTable} {number : ScopeId}

/-- The variable that a name leads to. -/
theorem exists_entry (lists : table.ListsVariables) {name : String} {id : VariableId}
    (found : table.scopes[number]?.bind (·.named? name) = some id) :
    ∃ entry, table.entries[id]? = some entry ∧ entry.scope = number ∧ entry.name = name := by
  obtain ⟨scope, scopeFound, named⟩ := Option.bind_eq_some_iff.mp found
  exact (lists.named number scope scopeFound name id).mp named

/-- A change of a variable that keeps its name and its scope. -/
theorem modify (lists : table.ListsVariables) {change : Variable → Variable}
    (keeps : ∀ entry, (change entry).name = entry.name ∧ (change entry).scope = entry.scope)
    (id : VariableId) (definitions : List Definition) :
    ListsVariables
      { table with entries := table.entries.modify id change, definitions := definitions } where
  listed number scope found other := by
    rw [lists.listed number scope found,
      exists_getElem?_modify_iff fun entry => by rw [(keeps entry).2]]
  listedOnce := lists.listedOnce
  named number scope found name other := by
    rw [lists.named number scope found,
      exists_getElem?_modify_iff fun entry => by rw [(keeps entry).1, (keeps entry).2]]
  inScope entry member := by
    obtain ⟨place, found⟩ := List.mem_iff_getElem?.mp member
    rw [List.getElem?_modify] at found
    obtain ⟨old, oldFound, rfl⟩ := Option.map_eq_some_iff.mp found
    have inOld := lists.inScope old (List.mem_of_getElem? oldFound)
    split
    · exact (keeps old).2 ▸ inOld
    · exact inOld

/-- A new variable of a name that has none yet. -/
theorem append (lists : table.ListsVariables) (entry : Variable)
    (isScope : entry.scope < table.scopes.length)
    (isNew : table.scopes[entry.scope]?.bind (·.named? entry.name) = none)
    (definitions : List Definition) :
    ListsVariables
      { table with
        scopes := table.scopes.modify entry.scope fun scope =>
          (scope.insertName entry.name table.entries.length).pushVariable table.entries.length
        entries := table.entries ++ [entry]
        definitions := definitions } := by
  have unlisted {number : ScopeId} {scope : Scope} (found : table.scopes[number]? = some scope) :
      table.entries.length ∉ scope.entries := by
    intro isListed
    obtain ⟨other, otherFound, -⟩ := (lists.listed number scope found _).mp isListed
    simp at otherFound
  -- In each scope only the new variable can come in, and only if it is in that scope.
  have grown {holds : Variable → Prop} (id : VariableId) :
      (∃ other, (table.entries ++ [entry])[id]? = some other ∧ holds other) ↔
        (∃ other, table.entries[id]? = some other ∧ holds other) ∨
          id = table.entries.length ∧ holds entry := by
    simp only [getElem?_append_singleton_eq_some_iff]
    grind
  constructor
  case listed =>
    intro number scope found id
    simp only [List.getElem?_modify] at found
    obtain ⟨old, oldFound, rfl⟩ := Option.map_eq_some_iff.mp found
    rw [grown, ← lists.listed number old oldFound]
    by_cases isHere : entry.scope = number
    · simp [isHere, Scope.pushVariable, Scope.insertName]
    · simp [isHere]
  case listedOnce =>
    intro scope member
    obtain ⟨number, found⟩ := List.mem_iff_getElem?.mp member
    rw [List.getElem?_modify] at found
    obtain ⟨old, oldFound, rfl⟩ := Option.map_eq_some_iff.mp found
    have oldOnce := lists.listedOnce old (List.mem_of_getElem? oldFound)
    split
    · exact List.nodup_append.mpr ⟨oldOnce, by simp, by
        rintro id isListed last isLast rfl
        exact unlisted oldFound (List.mem_singleton.mp isLast ▸ isListed)⟩
    · exact oldOnce
  case named =>
    intro number scope found name id
    simp only [List.getElem?_modify] at found
    obtain ⟨old, oldFound, rfl⟩ := Option.map_eq_some_iff.mp found
    rw [grown, ← lists.named number old oldFound]
    by_cases isHere : entry.scope = number
    · subst isHere
      rw [oldFound, Option.bind_some] at isNew
      rw [if_pos rfl]
      change List.lookup name ((entry.name, _) :: old.byName) = some id ↔ _
      by_cases isName : name = entry.name
      · subst isName
        simp [isNew, eq_comm]
      · have elsewhere : List.lookup name ((entry.name, table.entries.length) :: old.byName) =
            old.named? name := by
          rw [List.lookup_cons, beq_false_of_ne isName]
          rfl
        simp [elsewhere, Ne.symm isName]
    · simp [isHere]
  case inScope =>
    intro other member
    rw [List.length_modify]
    rcases List.mem_append.mp member with isOld | isLast
    · exact lists.inScope other isOld
    · exact List.mem_singleton.mp isLast ▸ isScope

/-- A further scope without variables, with whatever links. -/
theorem openFor {builder : ScopeBuilder} (lists : builder.table.ListsVariables) (node : Cursor) :
    (builder.openFor node).table.ListsVariables := by
  unfold ScopeBuilder.openFor
  cases node.scopeType? with
  | none => exact lists
  | some type =>
      have homeless {id : VariableId} {entry : Variable}
          (found : builder.table.entries[id]? = some entry) :
          entry.scope ≠ builder.table.scopes.length :=
        Nat.ne_of_lt (lists.inScope entry (List.mem_of_getElem? found))
      constructor
      case listed =>
        intro number scope found id
        rcases ScopeBuilder.eq_newScope_or_exists_of_nest found with
          ⟨rfl, rfl⟩ | ⟨old, oldFound, agrees, -⟩
        · constructor
          · exact fun isListed => absurd isListed List.not_mem_nil
          · rintro ⟨entry, entryFound, isHere⟩
            exact absurd isHere (homeless entryFound)
        · rw [agrees.entries]
          exact lists.listed number old oldFound id
      case listedOnce =>
        intro scope member
        rcases ScopeBuilder.eq_newScope_or_exists_of_mem_nest member with
          rfl | ⟨old, oldMem, agrees⟩
        · exact List.nodup_nil
        · rw [agrees.entries]
          exact lists.listedOnce old oldMem
      case named =>
        intro number scope found name id
        rcases ScopeBuilder.eq_newScope_or_exists_of_nest found with
          ⟨rfl, rfl⟩ | ⟨old, oldFound, agrees, -⟩
        · constructor
          · exact fun isNamed => nomatch isNamed
          · rintro ⟨entry, entryFound, isHere, -⟩
            exact absurd isHere (homeless entryFound)
        · rw [Scope.named?, agrees.byName]
          exact lists.named number old oldFound name id
      case inScope =>
        intro entry member
        rw [ScopeBuilder.length_nest]
        exact Nat.lt_succ_of_lt (lists.inScope entry member)

end ListsVariables

/-! ## Variables and their definitions -/

/-- A node spells a name in the definition of a number. -/
def Spells (table : ScopeTable) (name : String) (number : DefinitionId) (identifier : Cursor) :
    Prop :=
  ∃ definition, table.definitions[number]? = some definition ∧ definition.name = identifier ∧
    table.text identifier = name

/-- The variables and the definitions agree: a variable has definitions, in step with the
nodes that spell its name there, and each definition is of one variable. -/
structure FilesDefinitions (table : ScopeTable) : Prop where
  nonempty : ∀ entry ∈ table.entries, entry.definitions ≠ []
  spelled : ∀ entry ∈ table.entries,
    List.Forall₂ (table.Spells entry.name) entry.definitions entry.identifiers
  once : (table.entries.flatMap Variable.definitions).Perm (List.range table.definitions.length)

/-- All that is written down about variables agrees. -/
structure IsFiled (table : ScopeTable) : Prop extends table.ListsVariables, table.FilesDefinitions

theorem mem_variablesOf_iff {table : ScopeTable} {scope : Scope} {entry : Variable} :
    entry ∈ table.variablesOf scope ↔
      ∃ id ∈ scope.entries, table.entries[id]? = some entry := by
  rw [variablesOf, List.mem_filterMap]

theorem mem_definitionsOf_iff {table : ScopeTable} {entry : Variable} {definition : Definition} :
    definition ∈ table.definitionsOf entry ↔
      ∃ number ∈ entry.definitions, table.definitions[number]? = some definition := by
  rw [definitionsOf, List.mem_filterMap]

/-- A variable holds a definition. -/
def Holds (table : ScopeTable) (id : VariableId) (definition : Definition) : Prop :=
  ∃ entry, table.entries[id]? = some entry ∧ definition ∈ table.definitionsOf entry

theorem exists_related_of_mem {α β : Type} {related : α → β → Prop} {items : List α}
    {others : List β} (pairs : List.Forall₂ related items others) {item : α}
    (member : item ∈ items) : ∃ other ∈ others, related item other := by
  induction pairs with
  | nil => simp at member
  | cons isRelated rest ih =>
      rcases List.mem_cons.mp member with rfl | later
      · exact ⟨_, List.mem_cons_self, isRelated⟩
      · obtain ⟨other, otherMem, isRelated'⟩ := ih later
        exact ⟨other, List.mem_cons_of_mem _ otherMem, isRelated'⟩

namespace IsFiled

variable {table : ScopeTable}

/-- The definitions of a variable spell its name. -/
theorem text_eq (filed : table.IsFiled) {entry : Variable} (entryMem : entry ∈ table.entries)
    {definition : Definition} (member : definition ∈ table.definitionsOf entry) :
    table.text definition.name = entry.name := by
  obtain ⟨number, numberMem, found⟩ := mem_definitionsOf_iff.mp member
  obtain ⟨identifier, -, other, otherFound, rfl, named⟩ :=
    exists_related_of_mem (filed.spelled entry entryMem) numberMem
  obtain rfl := Option.some.inj (found.symm.trans otherFound)
  exact named

/-- Every definition is of a variable. -/
theorem exists_entry_of_definition (filed : table.IsFiled) {number : DefinitionId}
    {definition : Definition} (found : table.definitions[number]? = some definition) :
    ∃ entry ∈ table.entries, number ∈ entry.definitions := by
  have bound := (List.getElem?_eq_some_iff.mp found).1
  have isFiled := filed.once.mem_iff.mpr (List.mem_range.mpr bound)
  exact List.mem_flatMap.mp isFiled

theorem exists_holds (filed : table.IsFiled) {definition : Definition}
    (member : definition ∈ table.definitions) : ∃ id, table.Holds id definition := by
  obtain ⟨number, found⟩ := List.mem_iff_getElem?.mp member
  obtain ⟨entry, entryMem, numberMem⟩ := filed.exists_entry_of_definition found
  obtain ⟨id, entryFound⟩ := List.mem_iff_getElem?.mp entryMem
  exact ⟨id, entry, entryFound, mem_definitionsOf_iff.mpr ⟨number, numberMem, found⟩⟩

/-- A variable has a definition. -/
theorem exists_mem_definitionsOf (filed : table.IsFiled) {entry : Variable}
    (entryMem : entry ∈ table.entries) : ∃ definition, definition ∈ table.definitionsOf entry := by
  obtain ⟨number, numberMem⟩ := List.exists_mem_of_ne_nil _ (filed.nonempty entry entryMem)
  have isMade : number ∈ List.range table.definitions.length :=
    filed.once.mem_iff.mp (List.mem_flatMap.mpr ⟨entry, entryMem, numberMem⟩)
  exact ⟨_, mem_definitionsOf_iff.mpr
    ⟨number, numberMem, List.getElem?_eq_getElem (List.mem_range.mp isMade)⟩⟩

end IsFiled

theorem flatMap_modify_perm {α β : Type} {part : α → List β} {change : α → α} {item : β}
    (adds : ∀ entry, part (change entry) = part entry ++ [item]) {place : Nat}
    {entries : List α} (bound : place < entries.length) :
    ((entries.modify place change).flatMap part).Perm (entries.flatMap part ++ [item]) := by
  induction entries generalizing place with
  | nil => simp at bound
  | cons entry rest ih =>
      cases place with
      | zero =>
          rw [List.modify_zero_cons, List.flatMap_cons, List.flatMap_cons, adds, List.append_assoc,
            List.append_assoc]
          exact List.perm_append_comm.append_left _
      | succ place =>
          rw [List.modify_succ_cons, List.flatMap_cons, List.flatMap_cons, List.append_assoc]
          exact (ih (Nat.lt_of_succ_lt_succ bound)).append_left _

section Filed

variable {table : ScopeTable} {number : ScopeId} {definition : Definition}

theorem spells_append {name : String} {numbers : List DefinitionId} {identifiers : List Cursor}
    (spelled : List.Forall₂ (table.Spells name) numbers identifiers) (definition : Definition)
    (scopes : List Scope) (entries : List Variable) :
    List.Forall₂
      (Spells
        { table with
          scopes := scopes
          entries := entries
          definitions := table.definitions ++ [definition] } name)
      numbers identifiers := by
  refine spelled.imp ?_
  rintro id identifier ⟨other, found, spells⟩
  have bound := (List.getElem?_eq_some_iff.mp found).1
  exact ⟨other, by rw [List.getElem?_append_left bound, found], spells⟩

theorem spells_last (scopes : List Scope) (entries : List Variable) :
    Spells
      { table with
        scopes := scopes
        entries := entries
        definitions := table.definitions ++ [definition] }
      (table.text definition.name) table.definitions.length definition.name :=
  ⟨definition, by simp, rfl, rfl⟩

/-- A definition in a scope keeps all in agreement. -/
theorem IsFiled.define (filed : table.IsFiled) (isScope : number < table.scopes.length)
    (definition : Definition) : (table.define number definition).IsFiled := by
  cases found : table.scopes[number]?.bind (·.named? (table.text definition.name)) with
  | some id =>
      obtain ⟨entry, entryFound, -, isName⟩ := filed.exists_entry found
      have bound := (List.getElem?_eq_some_iff.mp entryFound).1
      rw [define_of_named? found]
      refine ⟨?_, ?_, ?_, ?_⟩
      · apply filed.toListsVariables.modify
        exact fun _ => ⟨rfl, rfl⟩
      · intro changed member
        obtain ⟨place, changedFound⟩ := List.mem_iff_getElem?.mp member
        rw [List.getElem?_modify] at changedFound
        obtain ⟨old, oldFound, rfl⟩ := Option.map_eq_some_iff.mp changedFound
        split
        · exact List.append_ne_nil_of_right_ne_nil _ (List.cons_ne_nil _ _)
        · exact filed.nonempty old (List.mem_of_getElem? oldFound)
      · intro changed member
        obtain ⟨place, changedFound⟩ := List.mem_iff_getElem?.mp member
        rw [List.getElem?_modify] at changedFound
        obtain ⟨old, oldFound, rfl⟩ := Option.map_eq_some_iff.mp changedFound
        have oldSpelled :=
          spells_append (filed.spelled old (List.mem_of_getElem? oldFound)) definition
        split
        · next isHere =>
            subst isHere
            obtain rfl := Option.some.inj (entryFound.symm.trans oldFound)
            refine List.rel_append (oldSpelled _ _) (.cons ?_ .nil)
            rw [isName]
            exact spells_last _ _
        · exact oldSpelled _ _
      · rw [List.length_append, List.length_singleton, List.range_succ]
        exact (flatMap_modify_perm (fun _ => rfl) bound).trans (filed.once.append_right _)
  | none =>
      rw [define_of_named?_eq_none found]
      refine ⟨filed.append ⟨_, _, _, number⟩ isScope found _, ?_, ?_, ?_⟩
      · intro entry member
        rcases List.mem_append.mp member with isOld | isLast
        · exact filed.nonempty entry isOld
        · obtain rfl := List.mem_singleton.mp isLast
          exact List.cons_ne_nil _ _
      · intro entry member
        rcases List.mem_append.mp member with isOld | isLast
        · exact spells_append (filed.spelled entry isOld) _ _ _
        · obtain rfl := List.mem_singleton.mp isLast
          exact .cons (spells_last _ _) .nil
      · rw [List.length_append, List.length_singleton, List.range_succ, List.flatMap_append]
        exact filed.once.append_right _

theorem definitions_define (table : ScopeTable) (number : ScopeId) (definition : Definition) :
    (table.define number definition).definitions = table.definitions ++ [definition] := by
  cases found : table.scopes[number]?.bind (·.named? (table.text definition.name)) with
  | some id => rw [define_of_named? found]
  | none => rw [define_of_named?_eq_none found]

/-- After a definition, a variable has the new one, and is in the scope of it, or it has
had the definition before. -/
theorem IsFiled.mem_definitions_define (filed : table.IsFiled) {id : VariableId}
    {entry : Variable} (found : (table.define number definition).entries[id]? = some entry)
    {made : DefinitionId} (member : made ∈ entry.definitions) :
    made = table.definitions.length ∧ entry.scope = number ∨
      ∃ old, table.entries[id]? = some old ∧ made ∈ old.definitions ∧
        entry.scope = old.scope := by
  cases isNamed : table.scopes[number]?.bind (·.named? (table.text definition.name)) with
  | some named =>
      obtain ⟨holder, holderFound, inScope, -⟩ := filed.exists_entry isNamed
      rw [define_of_named? isNamed, List.getElem?_modify] at found
      obtain ⟨old, oldFound, rfl⟩ := Option.map_eq_some_iff.mp found
      split at member
      · next isHere =>
          subst isHere
          obtain rfl := Option.some.inj (holderFound.symm.trans oldFound)
          rw [if_pos rfl]
          rcases List.mem_append.mp member with earlier | isLast
          · exact Or.inr ⟨holder, holderFound, earlier, rfl⟩
          · exact Or.inl ⟨List.mem_singleton.mp isLast, inScope⟩
      · next elsewhere =>
          rw [if_neg elsewhere]
          exact Or.inr ⟨old, oldFound, member, rfl⟩
  | none =>
      rw [define_of_named?_eq_none isNamed] at found
      rcases getElem?_append_singleton_eq_some_iff.mp found with isOld | ⟨-, rfl⟩
      · exact Or.inr ⟨entry, isOld, member, rfl⟩
      · exact Or.inl ⟨List.mem_singleton.mp member, rfl⟩

end Filed

theorem IsFiled.openFor {builder : ScopeBuilder} (filed : builder.table.IsFiled) (node : Cursor) :
    (builder.openFor node).table.IsFiled := by
  refine ⟨filed.toListsVariables.openFor node, ?_⟩
  unfold ScopeBuilder.openFor
  cases node.scopeType? with
  | none => exact filed.toFilesDefinitions
  | some type => exact ⟨filed.nonempty, filed.spelled, filed.once⟩

theorem isFiled_start (source : Source) : (ScopeBuilder.start source).table.IsFiled := by
  refine ⟨⟨?_, ?_, ?_, ?_⟩, ?_, ?_, ?_⟩
  all_goals simp [ScopeBuilder.start]

end ScopeTable

end AssertLint
