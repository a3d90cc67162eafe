import AssertLint.Script.Reading.Basic

/-!
# Steps of reading

A way goes on by completing phrases on its stack and then passing the next
terminal.  Where the grammar leaves a choice, further ways come of it.
-/

namespace AssertLint

namespace Script

namespace Reading

/-- Passes a terminal. -/
def shift (way : Nat) (token : Token) (terminal state : Nat) (isComment : Bool) :
    Reader Unit := do
  let below ← ask fun reading => (reading.way way).knot
  let branch := Branch.ofTerminal terminal token.start token.stop.offset isComment
  let knot ← inKnots (·.push below branch state token.stop.offset)
  changeWays (·.modify way ({ · with knot := knot }))

/-- Splits a row of branches before the comments at its end. -/
def splitComments (branches : List Branch) : List Branch × List Branch :=
  let comments := (branches.reverse.takeWhile (·.isComment)).reverse
  (branches.take (branches.length - comments.length), comments)

/-- Of several rows of parts of one phrase the best, made into a branch, with
the comments behind it. -/
def bestBranch (stage : Stage) (start : Nat) (group : PathGroup) : Branch × List Branch :=
  let build (row : List Branch) : Branch × List Branch :=
    let (parts, comments) := splitComments row
    (Branch.ofPhrase stage start parts, comments)
  group.others.foldl
    (fun best row =>
      let candidate := build row
      if best.1.isBetter candidate.1 then candidate else best)
    (build group.first)

/-- Whether there are so many ways that no more are added. -/
def isFull (reading : Reading) : Bool :=
  let ended := (reading.ways.filter (·.progress = .ended)).size
  wayLimit + wayOverflow + ended < reading.ways.size

/-- Completes a phrase on top of the knot in which some paths end. -/
def complete (table : Table) (stage : Stage) (current : Nat) (group : PathGroup) :
    Reader Unit := do
  if ← ask isFull then return
  let ground ← ask (·.knots.knot group.knot)
  let (branch, comments) := bestBranch stage ground.offset group
  match ← inAutomaton (Automaton.target? table ground.state stage.phrase) with
  | none => return
  | some state =>
      let favored := { branch with favor := branch.favor + stage.favor }
      let base ← inKnots (·.push group.knot favored state branch.span.stop)
      let knot ← comments.foldlM
        (fun below comment => inKnots (·.push below comment state comment.span.stop)) base
      addWay current knot

/-- Completes a phrase on the stack of a way.  The first of the ways that come
of it is returned, if they were not all joined with others. -/
def reduce (table : Table) (way stageNumber : Nat) : Reader (Option Nat) := do
  let stage := (table.stage stageNumber).stage
  let before ← ask (·.ways.size)
  let paths ← ask fun reading => reading.knots.pathsOver (reading.way way).knot stage.length
  (PathGroup.ofPaths paths).forM (complete table stage way)
  let after ← ask (·.ways.size)
  return if before < after then some before else none

/-- The root of a tree, given what lies on the stack when a text of some length
has been read: the branch of the program, and comments around it. -/
def rootOf? (length : Nat) (branches : List Branch) : Option Branch :=
  let (front, comments) := splitComments branches
  front.getLast?.map fun program =>
    let children := front.dropLast ++ program.children ++ comments
    { program with
      children := children
      span := ⟨(children.head?.map (·.span.start)).getD length, length⟩
      favor := children.foldl (fun favor child => favor + child.favor) 0 }

/-- The better of two readings of a whole text. -/
def betterRoot (known : Option Branch) (root : Branch) : Option Branch :=
  match known with
  | some other => if other.isBetter root then some root else some other
  | none => some root

/-- Ends a way that has read the whole text. -/
def accept (way : Nat) : Reader Unit := do
  modify fun reading =>
    let paths := reading.knots.pathsToGround (reading.way way).knot
    let roots := paths.filterMap fun path => rootOf? reading.length path.branches
    { reading with result := roots.foldl betterRoot reading.result }
  setProgress way .ended

/-- What came of the actions on a terminal. -/
inductive Performed where
  /-- The terminal was passed. -/
  | passed
  /-- Phrases were completed.  The way goes on as another one, unless all that
  came of it was joined with others. -/
  | completed (replacement : Option Nat)
  /-- There was nothing to do. -/
  | nothing

/-- What came of the actions when a phrase has been completed after them. -/
def Performed.andCompleted (replacement : Option Nat) : Performed → Performed
  | completed earlier => completed (replacement.or earlier)
  | _ => completed replacement

/-- Does what can be done in a state when a terminal comes next. -/
def perform (table : Table) (way : Nat) (token : Token) (terminal : Nat) :
    Performed → List Action → Reader Performed
  | performed, [] => return performed
  | performed, .reduce stage :: rest => do
      let replacement ← reduce table way stage
      perform table way token terminal (performed.andCompleted replacement) rest
  | _, .shift state :: _ => do
      shift way token terminal state false
      return .passed
  | _, .accept :: _ => do
      accept way
      return .passed

/-- Completes phrases on a way until a terminal is passed.  A keyword that does
not fit is taken for a name if a name fits. -/
def take (table : Table) (way : Nat) (token : Token) : (bound : Nat) → (terminal : Nat) →
    Reader Unit
  | 0, _ => setProgress way .ended
  | bound + 1, terminal => do
      let state ← ask fun reading => (reading.top way).state
      let actions ← inAutomaton (Automaton.actionsOn table state terminal)
      match ← perform table way token terminal .nothing actions with
      | .passed => return
      | .completed (some replacement) => do
          replaceWay way replacement
          take table way token bound terminal
      | .completed none => setProgress way .ended
      | .nothing =>
          let name := table.vocabulary.terminal .identifier
          let others ← inAutomaton (Automaton.actionsOn table state name)
          if table.vocabulary.isWord terminal && !others.isEmpty then
            take table way token bound name
          else
            setProgress way .stuck

/-- Reads one terminal on a way.  Comments are passed in every state. -/
def step (table : Table) (bound way : Nat) : Reader Unit := do
  let state ← ask fun reading => (reading.top way).state
  let next ← ask fun reading =>
    let offset := (reading.top way).offset
    table.scan? (reading.automaton.state state).terminals ⟨offset, reading.text.getD offset []⟩
  match next with
  | none => setProgress way .stuck
  | some token =>
      if table.vocabulary.isComment token.terminal then
        shift way token token.terminal state true
      else
        take table way token bound token.terminal

/-- Reads terminals on a way until it has come as far as the ways before it. -/
def stepAlong (table : Table) (bound way : Nat) : (fuel : Nat) → Reader Unit
  | 0 => setProgress way .ended
  | fuel + 1 => do
      if ← ask (·.isActive way) then
        step table bound way
        let offset ← ask fun reading => (reading.top way).offset
        let reached ← ask (·.reached)
        if reached < offset || (way ≠ 0 && offset = reached) then
          modify fun reading => { reading with reached := offset }
        else
          stepAlong table bound way fuel
      else
        return

/-- Reads on on every way, from a given one on.  Ways that come up meanwhile are
the last. -/
def stepAll (table : Table) (bound : Nat) : (fuel : Nat) → (way : Nat) → Reader Unit
  | 0, _ => return
  | fuel + 1, way => do
      if way < (← ask (·.ways.size)) then
        stepAlong table bound way bound
        stepAll table bound fuel (way + 1)
      else
        return

end Reading

end Script

end AssertLint
