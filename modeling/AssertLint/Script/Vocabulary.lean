import AssertLint.Script.Form
import Std.Data.HashMap

/-!
# The vocabulary of a grammar

The symbols of a grammar are numbered, terminals first, so that sets of
terminals are numbers too: a terminal is in the set when its bit is set.
-/

namespace AssertLint

namespace Script

/-- Distinct things, numbered in the order in which they were met. -/
structure Numbering (α : Type) [BEq α] [Hashable α] where
  entries : Array α
  numbers : Std.HashMap α Nat

namespace Numbering

variable {α : Type} [BEq α] [Hashable α]

/-- No things. -/
def empty : Numbering α := ⟨#[], ∅⟩

/-- How many things there are. -/
def size (numbering : Numbering α) : Nat := numbering.entries.size

/-- The number of a thing. -/
def number? (numbering : Numbering α) (entry : α) : Option Nat := numbering.numbers[entry]?

/-- Numbers one more thing, unless it has a number already. -/
def insert (numbering : Numbering α) (entry : α) : Numbering α :=
  if numbering.numbers.contains entry then numbering
  else ⟨numbering.entries.push entry, numbering.numbers.insert entry numbering.size⟩

/-- The things of a list. -/
def ofList (entries : List α) : Numbering α := entries.foldl insert empty

end Numbering

/-- A set of terminals, given by their numbers: the bits of a number. -/
abbrev TerminalSet := Nat

namespace TerminalSet

/-- The set of one terminal. -/
def single (number : Nat) : TerminalSet := 1 <<< number

/-- The terminals of two sets. -/
def union (first second : TerminalSet) : TerminalSet := Nat.lor first second

/-- Whether a terminal is in a set. -/
def contains (terminals : TerminalSet) (number : Nat) : Bool := Nat.testBit terminals number

end TerminalSet

/-- The numbers of terminals and phrases.  Phrases are numbered behind the
terminals. -/
structure Vocabulary where
  terminals : Numbering Terminal
  phrases : Numbering Phrase

namespace Vocabulary

/-- The number of symbols. -/
def size (vocabulary : Vocabulary) : Nat :=
  vocabulary.terminals.size + vocabulary.phrases.size

/-- The number of a symbol. -/
def number? (vocabulary : Vocabulary) : Symbol → Option Nat
  | .terminal terminal => vocabulary.terminals.number? terminal
  | .phrase phrase => (vocabulary.phrases.number? phrase).map (vocabulary.terminals.size + ·)

/-- The number of a symbol that is known to have one. -/
def number (vocabulary : Vocabulary) (symbol : Symbol) : Nat :=
  (vocabulary.number? symbol).getD vocabulary.size

/-- The number of a terminal. -/
def terminal (vocabulary : Vocabulary) (terminal : Terminal) : Nat :=
  vocabulary.number (.terminal terminal)

/-- The symbol with a number. -/
def symbol? (vocabulary : Vocabulary) (number : Nat) : Option Symbol :=
  if number < vocabulary.terminals.size then
    vocabulary.terminals.entries[number]?.map Symbol.terminal
  else
    vocabulary.phrases.entries[number - vocabulary.terminals.size]?.map Symbol.phrase

/-- Whether a number is that of a terminal. -/
def isTerminal (vocabulary : Vocabulary) (number : Nat) : Bool :=
  number < vocabulary.terminals.size

/-- The phrase with a number. -/
def phrase? (vocabulary : Vocabulary) (number : Nat) : Option Phrase :=
  match vocabulary.symbol? number with
  | some (.phrase phrase) => some phrase
  | _ => none

/-- Whether a number is that of a word. -/
def isWord (vocabulary : Vocabulary) (number : Nat) : Bool :=
  match vocabulary.symbol? number with
  | some (.terminal (.word _)) => true
  | _ => false

/-- Whether a number is that of a comment. -/
def isComment (vocabulary : Vocabulary) (number : Nat) : Bool :=
  match vocabulary.symbol? number with
  | some (.terminal .comment) => true
  | some (.terminal .htmlComment) => true
  | _ => false

/-- The vocabulary of productions. -/
def ofProductions (productions : List (Phrase × Production)) : Vocabulary where
  terminals :=
    Numbering.ofList
      (.finish :: .comment :: .htmlComment ::
        productions.flatMap fun (_, production) =>
          production.steps.filterMap fun step =>
            match step.symbol with
            | .terminal terminal => some terminal
            | .phrase _ => none)
  phrases := Numbering.ofList (productions.map Prod.fst)

end Vocabulary

end Script

end AssertLint
