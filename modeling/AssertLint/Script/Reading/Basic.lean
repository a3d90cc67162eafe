import AssertLint.Script.Automaton
import AssertLint.Script.Scan
import AssertLint.Script.Stack

/-!
# Ways of reading

A text can often be read in more than one way up to some place.  All ways are
followed side by side.  This file defines how far a reading has come, and the
small steps that change it.
-/

namespace AssertLint

namespace Script

/-- Whether a way of reading can go on. -/
inductive Progress where
  | active
  /-- The next terminal does not fit. -/
  | stuck
  /-- The way has ended, or has been joined with another one. -/
  | ended
  deriving DecidableEq, Repr, Inhabited

/-- One way of reading: the knot on top of its stack. -/
structure Way where
  knot : Nat
  progress : Progress
  deriving Inhabited

/-- How far the reading of a text has come. -/
structure Reading where
  /-- What is left of the text at each offset. -/
  text : Array Source
  automaton : Automaton
  knots : Knots
  ways : Array Way
  /-- The offset that the ways have come to. -/
  reached : Nat
  /-- The best reading of the whole text so far. -/
  result : Option Branch

/-- A step of reading. -/
abbrev Reader := StateM Reading

namespace Reading

/-- The most ways that are followed from one terminal to the next. -/
def wayLimit : Nat := 6

/-- The most ways beyond the limit that may come up at one terminal. -/
def wayOverflow : Nat := 4

/-- What is left of a text at each offset, behind what is known already.  An
offset inside a character counts as the one before the character. -/
def suffixes : Source → Array Source → Array Source
  | [], known => known.push []
  | character :: rest, known =>
      suffixes rest (known ++ Array.replicate character.utf8Size (character :: rest))

/-- The reading before the first terminal. -/
def initial (table : Table) (source : Source) : Reading where
  text := suffixes source #[]
  automaton := Automaton.initial table
  knots := #[⟨Automaton.startState, 0, 0, []⟩]
  ways := #[⟨0, .active⟩]
  reached := 0
  result := none

/-- The number of bytes of the text. -/
def length (reading : Reading) : Nat := reading.text.size - 1

/-- A way. -/
def way (reading : Reading) (number : Nat) : Way := reading.ways.getD number default

/-- The knot on top of the stack of a way. -/
def top (reading : Reading) (number : Nat) : Knot := reading.knots.knot (reading.way number).knot

/-- Whether a way can go on. -/
def isActive (reading : Reading) (number : Nat) : Bool :=
  number < reading.ways.size && (reading.way number).progress = .active

/-- What can be said about the reading.  The answer is found at once, so that
nothing keeps the reading from being changed in place afterwards. -/
@[noinline]
def ask {α : Type} (question : Reading → α) : Reader α :=
  modifyGet fun reading => (question reading, reading)

/-- Runs a step of the automaton. -/
def inAutomaton {α : Type} (step : StateM Automaton α) : Reader α :=
  modifyGet fun ⟨text, automaton, knots, ways, reached, result⟩ =>
    let (answer, automaton) := step.run automaton
    (answer, ⟨text, automaton, knots, ways, reached, result⟩)

/-- Changes the knots. -/
def inKnots {α : Type} (change : Knots → α × Knots) : Reader α :=
  modifyGet fun ⟨text, automaton, knots, ways, reached, result⟩ =>
    let (answer, knots) := change knots
    (answer, ⟨text, automaton, knots, ways, reached, result⟩)

/-- Changes the ways. -/
def changeWays (change : Array Way → Array Way) : Reader Unit :=
  modify fun reading => { reading with ways := change reading.ways }

/-- Says whether a way can go on. -/
def setProgress (number : Nat) (progress : Progress) : Reader Unit :=
  changeWays (·.modify number ({ · with progress := progress }))

/-- Lets a way be replaced by a later one. -/
def replaceWay (number later : Nat) : Reader Unit :=
  changeWays fun ways =>
    (ways.setIfInBounds number (ways.getD later default)).eraseIdxIfInBounds later

/-- Adds a way, or joins it with one that has come to the same state at the
same place.  The way `current` is left alone. -/
def addWay (current knot : Nat) : Reader Unit := do
  let like ← ask fun reading =>
    (List.range reading.ways.size).find? fun number =>
      number ≠ current && reading.isActive number &&
        reading.knots.areAlike (reading.way number).knot knot
  match like with
  | some number =>
      let target ← ask fun reading => (reading.way number).knot
      inKnots fun knots => ((), knots.join target knot)
  | none => changeWays (·.push ⟨knot, .active⟩)

end Reading

end Script

end AssertLint
