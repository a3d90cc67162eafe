import AssertLint.Script.Grammar
import AssertLint.Script.Stage

/-!
# The grammar prepared for reading

This file finds the terminals with which a phrase can begin, and the stages
that beginning a phrase opens.  All of it depends on the grammar alone.
-/

namespace AssertLint

namespace Script

/-- A stage that beginning a phrase with a certain symbol leads to.  The
complete phrase of the stage can be followed by `ahead`, and, if `inherits`, by
what can follow the phrase that was begun. -/
structure Opening where
  stage : Nat
  ahead : TerminalSet
  inherits : Bool
  deriving Inhabited

/-- How a phrase can begin with another phrase: what may follow the other one,
and whether it may also be all there is. -/
structure LeftPart where
  phrase : Nat
  ahead : TerminalSet
  isWhole : Bool
  deriving Inhabited

/-- A grammar prepared for reading. -/
structure Table where
  vocabulary : Vocabulary
  orders : List (List Standing)
  stages : Array NumberedStage
  /-- The terminals with which each symbol can begin. -/
  firsts : Array TerminalSet
  /-- For each phrase, the stages that it opens, by the symbol behind which
  they stand. -/
  openings : Array (Std.HashMap Nat (List Opening))
  /-- The kind of the nodes of each symbol. -/
  kinds : Array (Option Kind)
  /-- The signs, with their numbers. -/
  signs : List (List Char × Nat)
  /-- The stage before a whole script. -/
  start : Nat
  /-- The stage of a script without statements. -/
  blank : Nat

namespace Table

/-- Extends a table of sets by a fixed rule until nothing is added. -/
def saturate (extend : Array TerminalSet → Array TerminalSet) :
    (bound : Nat) → Array TerminalSet → Array TerminalSet
  | 0, sets => sets
  | bound + 1, sets =>
      let extended := extend sets
      if extended == sets then sets else saturate extend bound extended

/-- The terminals with which each symbol can begin. -/
def firstSets (vocabulary : Vocabulary) (stages : List Stage) : Array TerminalSet :=
  let initial := (Array.range vocabulary.size).map fun number =>
    if vocabulary.isTerminal number then TerminalSet.single number else 0
  let extend (sets : Array TerminalSet) : Array TerminalSet :=
    stages.foldl
      (fun sets stage =>
        match stage.next? with
        | some symbol =>
            let added := sets.getD symbol 0
            sets.modify stage.phrase (TerminalSet.union added)
        | none => sets)
      sets
  saturate extend vocabulary.size initial

/-- Adds one way to begin with a phrase to those that are known. -/
def addLeftPart (parts : List LeftPart) (added : LeftPart) : List LeftPart :=
  match parts with
  | [] => [added]
  | part :: rest =>
      if part.phrase = added.phrase then
        ⟨part.phrase, part.ahead.union added.ahead, part.isWhole || added.isWhole⟩ :: rest
      else
        part :: addLeftPart rest added

/-- For each phrase, the phrases with which it can begin. -/
def leftParts (vocabulary : Vocabulary) (firsts : Array TerminalSet) (stages : List Stage) :
    Array (List LeftPart) :=
  stages.foldl
    (fun parts stage =>
      match stage.next? with
      | some symbol =>
          if vocabulary.isTerminal symbol then parts
          else
            let added : LeftPart :=
              match stage.second? with
              | some second => ⟨symbol, firsts.getD second 0, false⟩
              | none => ⟨symbol, 0, true⟩
            parts.modify stage.phrase (addLeftPart · added)
      | none => parts)
    (Array.replicate vocabulary.size [])

/-- What may follow a phrase at the beginning of another one: some terminals,
and, if the flag is set, what may follow the other one. -/
abbrev Follow := TerminalSet × Bool

/-- The phrases with which a phrase can begin, directly or through others, with
what may follow them. -/
def spread (parts : Array (List LeftPart)) :
    (bound : Nat) → List (Nat × Follow) → Std.HashMap Nat Follow → Std.HashMap Nat Follow
  | 0, _, known => known
  | _, [], known => known
  | bound + 1, (phrase, ahead, inherits) :: rest, known =>
      let old := known[phrase]?
      let merged : Follow :=
        match old with
        | some (terminals, flag) => (terminals.union ahead, flag || inherits)
        | none => (ahead, inherits)
      if old == some merged then spread parts bound rest known
      else
        let further := (parts.getD phrase []).map fun part =>
          (part.phrase,
            (if part.isWhole then part.ahead.union merged.1 else part.ahead,
              part.isWhole && merged.2))
        spread parts bound (further ++ rest) (known.insert phrase merged)

/-- The stages that beginning a phrase leads to, by the symbol behind which
they stand. -/
def openingsOf (stages : Array NumberedStage) (roots : Array (List Nat))
    (known : List (Nat × Follow)) : Std.HashMap Nat (List Opening) :=
  known.foldl
    (fun openings (phrase, ahead, inherits) =>
      (roots.getD phrase []).foldl
        (fun openings root =>
          let stage := stages.getD root default
          match stage.next with
          | some next =>
              openings.insert next (⟨stage.following, ahead, inherits⟩ :: openings.getD next [])
          | none => openings)
        openings)
    ∅

/-- Prepares a grammar. -/
def ofRules (rules : List Grammar.Rule) (orders : List (List Standing)) : Table :=
  let script : Production := ⟨[⟨.phrase (.node .program), none, none, ⟨none, none⟩⟩], 0⟩
  let productions :=
    rules.flatMap (fun (phrase, form) => form.productions.map ((phrase, ·))) ++
      [(Phrase.script, script)]
  let vocabulary := Vocabulary.ofProductions productions
  let firstStages := productions.map fun (phrase, production) =>
    Stage.ofProduction vocabulary phrase production
  let insertStage (accumulated : Stages × Array (List Nat)) (stage : Stage) :=
    let (stages, root) := accumulated.1.insertAll stage stage.rest.length
    (stages, accumulated.2.modify stage.phrase (root :: ·))
  let (stages, roots) :=
    firstStages.foldl insertStage (⟨#[], ∅⟩, Array.replicate vocabulary.size [])
  let firsts := firstSets vocabulary firstStages
  let parts := leftParts vocabulary firsts firstStages
  let bound := (vocabulary.size + 2) * (vocabulary.size + 2) * (vocabulary.size + 2)
  let openings := (Array.range vocabulary.size).map fun number =>
    if vocabulary.isTerminal number then ∅
    else
      openingsOf stages.entries roots (spread parts bound [(number, 0, true)] ∅).toList
  let rootOf (phrase : Phrase) (isWanted : Stage → Bool) : Nat :=
    ((roots.getD (vocabulary.number (.phrase phrase)) []).find? fun root =>
      isWanted (stages.entries.getD root default).stage).getD 0
  { vocabulary := vocabulary
    orders := orders
    stages := stages.entries
    firsts := firsts
    openings := openings
    kinds := (Array.range vocabulary.size).map fun number =>
      (vocabulary.symbol? number).bind Symbol.kind?
    signs := vocabulary.terminals.entries.toList.zipIdx.filterMap fun (terminal, number) =>
      match terminal with
      | .sign spelling => some (spelling.toList, number)
      | _ => none
    start := rootOf .script (fun _ => true)
    blank := rootOf (.node .program) Stage.isComplete }

/-- The stage with a number. -/
def stage (table : Table) (number : Nat) : NumberedStage :=
  table.stages.getD number default

/-- The terminals with which a symbol can begin. -/
def first (table : Table) (symbol : Nat) : TerminalSet :=
  table.firsts.getD symbol 0

end Table

/-- The grammar of scripts prepared for reading. -/
def scriptTable : Table := Table.ofRules Grammar.rules Grammar.orders

end Script

end AssertLint
