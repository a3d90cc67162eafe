import AssertLint.Script.Reading.Condense
import AssertLint.Script.Reading.Step

/-!
# Texts that are no scripts

When no way of reading can go on, the most promising one shows what the text
consists of.  First every phrase that could be complete is completed, whatever
comes next.  Where that leaves a choice, the text is better understood the
fewer parts it falls into.
-/

namespace AssertLint

namespace Script

namespace Branch

mutual

/-- The number of parts of a branch that show, given which symbols do. -/
def shownParts (isShown : Nat → Bool) : Branch → Nat
  | ⟨symbol, _, _, _, _, children⟩ =>
      if isShown symbol then 1 else shownPartsOfList isShown children

/-- The number of parts of a row of branches that show. -/
def shownPartsOfList (isShown : Nat → Bool) : List Branch → Nat
  | [] => 0
  | branch :: rest => branch.shownParts isShown + shownPartsOfList isShown rest

end

end Branch

namespace Reading

/-- Adds a stage to those whose phrases are to be completed, unless the same
phrase of the same length is among them. -/
def insertCompletion (table : Table) (known : List Nat) (number : Nat) : List Nat :=
  let stage := (table.stage number).stage
  let isLike (other : Nat) : Bool :=
    (table.stage other).stage.phrase = stage.phrase &&
      (table.stage other).stage.length = stage.length
  if known.any isLike then known else known ++ [number]

/-- The actions of a state on every terminal. -/
def everyAction (table : Table) (state : Nat) : Reader (List Action) := do
  let allowed ← ask fun reading => (reading.automaton.state state).terminals
  let terminals := (List.range table.vocabulary.terminals.size).filter allowed.contains
  let actions ← terminals.mapM fun terminal =>
    inAutomaton (Automaton.actionsOn table state terminal)
  return actions.flatten

/-- The stage of an action that completes a phrase. -/
def completion? : Action → Option Nat
  | .reduce stage => some stage
  | _ => none

/-- Whether an action passes a terminal. -/
def isShift : Action → Bool
  | .shift _ => true
  | _ => false

/-- Joins a way with one of those between the first one and it. -/
def joinEarlier (way : Nat) : Reader Bool :=
  modifyGet fun reading =>
    match ((List.range way).drop 1).findSome? (reading.joinWays? · way) with
    | some joined => (true, joined)
    | none => (false, reading)

/-- Completes every phrase that could be complete, on a way and on the ways
that come of it.  A way on which no terminal could be passed is given up for
what comes of it, for a limited number of turns. -/
def completeAll (table : Table) : (fuel : Nat) → (turn way : Nat) → Reader Unit
  | 0, _, _ => return
  | fuel + 1, turn, way => do
      let count ← ask (·.ways.size)
      if way < count then
        if ← joinEarlier way then
          completeAll table fuel (turn + 1) way
        else
          let state ← ask fun reading => (reading.top way).state
          let actions ← everyAction table state
          let stages := (actions.filterMap completion?).foldl (insertCompletion table) []
          let replacements ← stages.mapM (reduce table way)
          match replacements.getLast?.join with
          | some replacement =>
              if !actions.any isShift && turn < wayLimit then
                replaceWay way replacement
                completeAll table fuel (turn + 1) way
              else
                completeAll table fuel (turn + 1) (if way = 0 then count else way + 1)
          | none => completeAll table fuel (turn + 1) (if way = 0 then count else way + 1)
      else
        return

/-- A row of branches that a text may consist of, the number of parts that
show, and how much it is favored. -/
structure Remainder where
  branches : List Branch
  parts : Nat
  favor : Int

/-- The better of two rows: the one with fewer parts, then the more favored
one, then the second. -/
def Remainder.better (first second : Remainder) : Remainder :=
  if second.parts < first.parts then second
  else if first.parts < second.parts then first
  else if second.favor < first.favor then first
  else second

/-- Whether a symbol shows: every terminal that takes up text, and every phrase
that becomes a node. -/
def isShown (table : Table) (symbol : Nat) : Bool :=
  match table.vocabulary.symbol? symbol with
  | some (.terminal terminal) => terminal ≠ .lineEnd
  | some (.phrase phrase) => phrase.kind?.isSome
  | none => false

/-- A path down to the ground as a row of branches. -/
def remainderOf (table : Table) (path : Path) : Remainder where
  branches := path.branches
  parts := Branch.shownPartsOfList (isShown table) (path.branches.filter (!·.isComment))
  favor := path.branches.foldl (fun favor branch => favor + branch.favor) 0

/-- What a text that is no script consists of. -/
def unfinished (table : Table) (fuel : Nat) (reading : Reading) : List Branch :=
  let start := { reading with ways := #[⟨(reading.way 0).knot, .active⟩] }
  let completed := ((completeAll table fuel 0 0).run start).2
  let paths := completed.ways.toList.flatMap fun way =>
    completed.knots.pathsToGround way.knot
  match paths.map (remainderOf table) with
  | [] => []
  | first :: others => (others.foldl Remainder.better first).branches

end Reading

end Script

end AssertLint
