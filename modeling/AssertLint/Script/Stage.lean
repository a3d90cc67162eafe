import AssertLint.Script.Vocabulary

/-!
# Stages of productions

To read a text one has to know, at every place, which phrases are under way and
how far each of them has come.  A stage of a production is the production with
a mark between what has been read and what is still to come.  Two stages that
differ only in symbols that have been read are the same stage.
-/

namespace AssertLint

namespace Script

/-- A step of a production, with its symbol given by its number. -/
structure NumberedStep where
  symbol : Nat
  rank : Option Rank
  side : Option Side
  label : Label
  deriving BEq, Hashable, Inhabited

/-- A production of a phrase with a mark in it.  Of the steps before the mark
only what still matters is kept: their labels, and the rank and side of the
last one. -/
structure Stage where
  phrase : Nat
  favor : Int
  passed : List Label
  rank : Option Rank
  side : Option Side
  rest : List NumberedStep
  deriving BEq, Hashable, Inhabited

namespace Stage

/-- The stage with the mark behind one more step. -/
def pass (stage : Stage) : Stage :=
  match stage.rest with
  | [] => stage
  | step :: rest =>
      { stage with
        passed := stage.passed ++ [step.label]
        rank := step.rank
        side := step.side
        rest := rest }

/-- Whether the phrase is complete. -/
def isComplete (stage : Stage) : Bool := stage.rest.isEmpty

/-- The next symbol. -/
def next? (stage : Stage) : Option Nat := stage.rest.head?.map NumberedStep.symbol

/-- The symbol behind the next one. -/
def second? (stage : Stage) : Option Nat := stage.rest[1]?.map NumberedStep.symbol

/-- The number of steps that have been passed. -/
def length (stage : Stage) : Nat := stage.passed.length

end Stage

/-- A stage with the number of the stage behind its next symbol. -/
structure NumberedStage where
  stage : Stage
  next : Option Nat
  second : Option Nat
  following : Nat
  deriving Inhabited

/-- The first stage of a production. -/
def Stage.ofProduction (vocabulary : Vocabulary) (phrase : Phrase) (production : Production) :
    Stage where
  phrase := vocabulary.number (.phrase phrase)
  favor := production.favor
  passed := []
  rank := none
  side := none
  rest := production.steps.map fun step =>
    ⟨vocabulary.number step.symbol, step.rank, step.side, step.label⟩

/-- Stages with their numbers. -/
structure Stages where
  entries : Array NumberedStage
  numbers : Std.HashMap Stage Nat

namespace Stages

/-- Numbers a stage, given the number of the stage that follows it. -/
def insert (stages : Stages) (stage : Stage) (following : Nat) : Stages × Nat :=
  match stages.numbers[stage]? with
  | some number => (stages, number)
  | none =>
      let number := stages.entries.size
      (⟨stages.entries.push ⟨stage, stage.next?, stage.second?, following⟩,
        stages.numbers.insert stage number⟩, number)

/-- Numbers a stage and all that follow it in its production. -/
def insertAll (stages : Stages) (stage : Stage) : (bound : Nat) → Stages × Nat
  | 0 => stages.insert stage 0
  | bound + 1 =>
      let (stages, following) := stages.insertAll stage.pass bound
      stages.insert stage following

end Stages

end Script

end AssertLint
