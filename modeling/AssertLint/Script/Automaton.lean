import AssertLint.Script.Table

/-!
# States of reading

While a text is read from left to right, what has been read so far matters only
through the stages that it leaves open, each with the terminals that may follow
its complete phrase.  Such a collection of stages is a state.  States are made
when they are first needed and are then kept.

In a state a terminal can be passed, or it can show that a phrase is complete.
If both, or if several phrases could be complete, ranks and sides decide, and
what they leave undecided is all tried.
-/

namespace AssertLint

namespace Script

/-- The stages behind the last symbol that was read, ordered by their numbers,
with the terminals that may follow their phrases. -/
abbrev Kernel := List (Nat × TerminalSet)

/-- A state of reading. -/
structure State where
  kernel : Kernel
  /-- The phrases that may come next, with the terminals behind them. -/
  phrases : List (Nat × TerminalSet)
  /-- The terminals that may come next. -/
  terminals : TerminalSet
  deriving Inhabited

/-- What can be done in a state when a terminal comes next. -/
inductive Action where
  /-- Pass the terminal, to a given state. -/
  | shift (state : Nat)
  /-- Complete the phrase of a stage. -/
  | reduce (stage : Nat)
  /-- The script is complete. -/
  | accept
  deriving DecidableEq, Repr, Inhabited

/-- The states made so far, and what is known about them. -/
structure Automaton where
  states : Array State
  numbers : Std.HashMap Kernel Nat
  targets : Std.HashMap (Nat × Nat) (Option Nat)
  actions : Std.HashMap (Nat × Nat) (List Action)

namespace Kernel

/-- Adds the terminals that may follow a stage. -/
def insert (number : Nat) (ahead : TerminalSet) : Kernel → Kernel
  | [] => [(number, ahead)]
  | (other, otherAhead) :: rest =>
      if number < other then (number, ahead) :: (other, otherAhead) :: rest
      else if number = other then (other, otherAhead.union ahead) :: rest
      else (other, otherAhead) :: insert number ahead rest

end Kernel

namespace Table

/-- The state with a given kernel. -/
def stateOf (table : Table) (kernel : Kernel) : State :=
  kernel.foldl
    (fun state (number, ahead) =>
      let stage := table.stage number
      match stage.next with
      | none => { state with terminals := state.terminals.union ahead }
      | some next =>
          let terminals := state.terminals.union (table.first next)
          if table.vocabulary.isTerminal next then { state with terminals := terminals }
          else
            let behind := (stage.second.map table.first).getD ahead
            { state with
              terminals := terminals
              phrases := Kernel.insert next behind state.phrases })
    ⟨kernel, [], 0⟩

/-- The kernel of the state behind a symbol. -/
def kernelBehind (table : Table) (state : State) (symbol : Nat) : Kernel :=
  let passed := state.kernel.foldl
    (fun kernel (number, ahead) =>
      let stage := table.stage number
      if stage.next == some symbol then Kernel.insert stage.following ahead kernel else kernel)
    []
  state.phrases.foldl
    (fun kernel (phrase, behind) =>
      ((table.openings.getD phrase ∅).getD symbol []).foldl
        (fun kernel opening =>
          let ahead :=
            if opening.inherits then opening.ahead.union behind else opening.ahead
          Kernel.insert opening.stage ahead kernel)
        kernel)
    passed

/-- Whether one of the phrases or the rank is what an order lists. -/
def standsAt (table : Table) (rank : Option Rank) (phrases : List Nat) : Standing → Bool
  | .rank listed => rank = some listed
  | .phrase listed => phrases.contains (table.vocabulary.number (.phrase listed))

/-- Which of two readings an order puts above the other. -/
def compareIn (table : Table) (firstRank : Option Rank) (firstPhrases : List Nat)
    (secondRank : Option Rank) (secondPhrases : List Nat) :
    (sawFirst sawSecond : Bool) → List Standing → Ordering
  | _, _, [] => .eq
  | sawFirst, sawSecond, standing :: rest =>
      if table.standsAt firstRank firstPhrases standing then
        if sawSecond then .lt
        else compareIn table firstRank firstPhrases secondRank secondPhrases true sawSecond rest
      else if table.standsAt secondRank secondPhrases standing then
        if sawFirst then .gt
        else compareIn table firstRank firstPhrases secondRank secondPhrases sawFirst true rest
      else
        compareIn table firstRank firstPhrases secondRank secondPhrases sawFirst sawSecond rest

/-- Which of two readings stands above the other: the first order that lists
both decides. -/
def compareRanks (table : Table) (firstRank : Option Rank) (firstPhrases : List Nat)
    (secondRank : Option Rank) (secondPhrases : List Nat) : Ordering :=
  let decision? (order : List Standing) : Option Ordering :=
    match table.compareIn firstRank firstPhrases secondRank secondPhrases false false order with
    | .eq => none
    | decision => some decision
  (table.orders.findSome? decision?).getD .eq

end Table

/-- The phrases that may be complete before a terminal: those of the highest
rank. -/
structure Completions where
  stages : List Nat
  rank : Option Rank
  phrases : List Nat
  anyLeft : Bool
  anyRight : Bool
  anyNeither : Bool

namespace Completions

/-- No phrases. -/
def none : Completions := ⟨[], .none, [], false, false, false⟩

/-- Takes in one more complete stage. -/
def add (completions : Completions) (number : Nat) (stage : Stage) : Completions where
  stages := completions.stages ++ [number]
  rank := stage.rank
  phrases := stage.phrase :: completions.phrases
  anyLeft := completions.anyLeft || stage.side = some .left
  anyRight := completions.anyRight || stage.side = some .right
  anyNeither := completions.anyNeither || stage.side = .none

end Completions

namespace Table

/-- The order in which complete stages are considered: shorter ones first, and
those of earlier phrases first. -/
def comesBefore (table : Table) (first second : Nat) : Bool :=
  let left := (table.stage first).stage
  let right := (table.stage second).stage
  if left.length ≠ right.length then left.length < right.length
  else if left.phrase ≠ right.phrase then left.phrase < right.phrase
  else left.favor ≤ right.favor

/-- The phrases of a state that may be complete before a terminal. -/
def completions (table : Table) (state : State) (terminal : Nat) : Completions :=
  let complete := state.kernel.filterMap fun (number, ahead) =>
    if (table.stage number).next.isNone && ahead.contains terminal then some number else none
  (complete.mergeSort table.comesBefore).foldl
    (fun completions number =>
      let stage := (table.stage number).stage
      if completions.stages.isEmpty then completions.add number stage
      else
        match table.compareRanks stage.rank [stage.phrase] completions.rank
            completions.phrases with
        | .gt => Completions.none.add number stage
        | .eq => completions.add number stage
        | .lt => completions)
    Completions.none

/-- Whether a stage is under way and goes on with a terminal. -/
def goesOnWith (table : Table) (terminal : Nat) (stage : NumberedStage) : Bool :=
  match stage.next with
  | some next => stage.stage.length ≠ 0 && (table.first next).contains terminal
  | none => false

/-- Which of passing a terminal and completing phrases is kept. -/
inductive Choice where
  | shiftOnly
  | reduceOnly
  | both
  deriving DecidableEq, Repr

/-- Decides between passing a terminal and completing phrases before it. -/
def choose (table : Table) (state : State) (terminal : Nat) (completions : Completions) :
    Choice :=
  let ongoing := state.kernel.filterMap fun (number, _) =>
    let stage := table.stage number
    if table.goesOnWith terminal stage then some stage.stage else none
  let conflicting := ongoing.map Stage.phrase ++ completions.phrases
  let isOneSeries :=
    match conflicting with
    | [] => false
    | phrase :: rest =>
        ((table.vocabulary.phrase? phrase).map Phrase.isSeries).getD false &&
          rest.all (· = phrase)
  if isOneSeries then .reduceOnly
  else
    let orders := ongoing.map fun stage =>
      table.compareRanks stage.rank [stage.phrase] completions.rank completions.phrases
    let isAbove := orders.contains .gt
    let isBelow := orders.contains .lt
    if isAbove && !isBelow then .shiftOnly
    else if isBelow && !isAbove then .reduceOnly
    else if isAbove then .both
    else
      match completions.anyLeft, completions.anyNeither, completions.anyRight with
      | true, false, false => .reduceOnly
      | false, false, true => .shiftOnly
      | _, _, _ => .both

end Table

namespace Automaton

/-- The number of the state that a script begins in. -/
def startState : Nat := 0

/-- The automaton with the state that a script begins in. -/
def initial (table : Table) : Automaton :=
  let finish := TerminalSet.single (table.vocabulary.terminal .finish)
  let kernel := Kernel.insert table.start finish (Kernel.insert table.blank finish [])
  ⟨#[table.stateOf kernel], Std.HashMap.ofList [(kernel, startState)], ∅, ∅⟩

/-- The state with a number. -/
def state (automaton : Automaton) (number : Nat) : State :=
  automaton.states.getD number default

/-- The number of the state with a kernel. -/
def numberOf (table : Table) (kernel : Kernel) : StateM Automaton Nat :=
  modifyGet fun automaton =>
    match automaton.numbers[kernel]? with
    | some number => (number, automaton)
    | none =>
        let number := automaton.states.size
        (number,
          { automaton with
            states := automaton.states.push (table.stateOf kernel)
            numbers := automaton.numbers.insert kernel number })

/-- The state behind a symbol. -/
def target? (table : Table) (number symbol : Nat) : StateM Automaton (Option Nat) := do
  let automaton ← get
  match automaton.targets[(number, symbol)]? with
  | some target => return target
  | none =>
      let kernel := table.kernelBehind (automaton.state number) symbol
      let target ← if kernel.isEmpty then pure none else some <$> numberOf table kernel
      modify fun automaton =>
        { automaton with targets := automaton.targets.insert (number, symbol) target }
      return target

/-- What can be done in a state when a terminal comes next.  Completing phrases
comes before passing the terminal. -/
def actionsOn (table : Table) (number terminal : Nat) : StateM Automaton (List Action) := do
  let automaton ← get
  match automaton.actions[(number, terminal)]? with
  | some actions => return actions
  | none =>
      let state := automaton.state number
      let completions := table.completions state terminal
      let target ← target? table number terminal
      let reductions := completions.stages.map fun stage =>
        if (table.stage stage).stage.phrase = (table.stage table.start).stage.phrase then
          Action.accept
        else
          Action.reduce stage
      let actions :=
        match target with
        | none => reductions
        | some target =>
            if reductions.isEmpty then [Action.shift target]
            else
              match table.choose state terminal completions with
              | .shiftOnly => [Action.shift target]
              | .reduceOnly => reductions
              | .both => reductions ++ [Action.shift target]
      modify fun automaton =>
        { automaton with actions := automaton.actions.insert (number, terminal) actions }
      return actions

end Automaton

end Script

end AssertLint
