import AssertLint.Script.Phrase

/-!
# Forms of phrases

A form says how a phrase is put together.  Where the text could be read in two
ways, ranks and sides decide between the forms as far as they can; where they
do not, every reading is followed and the more favored one is kept in the end.
A form stands for its productions, the plain rows of symbols that it allows.
-/

namespace AssertLint

namespace Script

/-- How tightly the parts of a phrase hold together. -/
inductive Rank where
  | member
  | templateCall
  | construction
  | call
  | unary
  | exponent
  | product
  | sum
  | shift
  | comparison
  | relation
  | equality
  | bitwiseAnd
  | bitwiseXor
  | bitwiseOr
  | logicalAnd
  | logicalOr
  | conditional
  | assignment
  | declaration
  | literal
  | object
  deriving DecidableEq, Hashable, Repr, Inhabited

/-- The side to which equally ranked phrases group. -/
inductive Side where
  | left
  | right
  deriving DecidableEq, Hashable, Repr, Inhabited

/-- The part that a step plays in its phrase: the kind under which its node is
shown, when that is not its own, and the field. -/
structure Label where
  kind : Option Kind
  field : Option Field
  deriving DecidableEq, Hashable, Repr, Inhabited

/-- One symbol of a production. -/
structure Step where
  symbol : Symbol
  rank : Option Rank
  side : Option Side
  label : Label
  deriving DecidableEq, Hashable, Repr, Inhabited

/-- A row of symbols that a phrase can consist of, and how much it is favored
over another reading of the same text. -/
structure Production where
  steps : List Step
  favor : Int
  deriving DecidableEq, Hashable, Repr, Inhabited

namespace Production

/-- Of two favors the one that is farther from none. -/
def strongerFavor (first second : Int) : Int :=
  if first.natAbs < second.natAbs then second else first

/-- One production after another. -/
def append (first second : Production) : Production :=
  ⟨first.steps ++ second.steps, strongerFavor first.favor second.favor⟩

/-- The production of no symbols. -/
def empty : Production := ⟨[], 0⟩

end Production

/-- How a phrase is put together. -/
inductive Form where
  | symbol (symbol : Symbol)
  /-- One part after the other. -/
  | seq (parts : List Form)
  | oneOf (options : List Form)
  | within (field : Field) (form : Form)
  /-- Shows the nodes of the form as nodes of a given kind. -/
  | shownAs (kind : Kind) (form : Form)
  | ranked (rank : Rank) (form : Form)
  | leaning (side : Side) (form : Form)
  | favored (amount : Int) (form : Form)
  deriving Inhabited

namespace Form

/-- What the forms around a form say about its steps. -/
structure Marks where
  rank : Option Rank
  side : Option Side
  label : Label

mutual

/-- The productions of a form. -/
def productionsUnder (marks : Marks) : Form → List Production
  | .symbol part => [⟨[⟨part, marks.rank, marks.side, marks.label⟩], 0⟩]
  | seq parts => productionsOfParts marks parts
  | oneOf options => productionsOfOptions marks options
  | within field form =>
      form.productionsUnder { marks with label := { marks.label with field := some field } }
  | shownAs kind form =>
      form.productionsUnder { marks with label := { marks.label with kind := some kind } }
  | ranked rank form => form.productionsUnder { marks with rank := some rank }
  | leaning side form => form.productionsUnder { marks with side := some side }
  | favored amount form =>
      (form.productionsUnder marks).map fun production =>
        { production with favor := Production.strongerFavor production.favor amount }

/-- The productions of forms that follow each other. -/
def productionsOfParts (marks : Marks) : List Form → List Production
  | [] => [Production.empty]
  | part :: rest =>
      let following := productionsOfParts marks rest
      (part.productionsUnder marks).flatMap fun production =>
        following.map production.append

/-- The productions of forms between which there is a choice. -/
def productionsOfOptions (marks : Marks) : List Form → List Production
  | [] => []
  | option :: rest => option.productionsUnder marks ++ productionsOfOptions marks rest

end

/-- The productions of a form, each of them once. -/
def productions (form : Form) : List Production :=
  (form.productionsUnder ⟨none, none, ⟨none, none⟩⟩).eraseDups

instance : Coe String Form := ⟨fun spelling => symbol (.terminal (.ofSpelling spelling))⟩

/-- The form of a phrase that becomes a node. -/
def node (kind : Kind) : Form := symbol (.phrase (.node kind))

/-- The form of a phrase that becomes no node. -/
def part (phrase : Phrase) : Form := symbol (.phrase phrase)

/-- The form of a terminal. -/
def token (terminal : Terminal) : Form := symbol (.terminal terminal)

/-- The form, or nothing. -/
def optional (form : Form) : Form := oneOf [form, seq []]

/-- The form of a phrase that is a row of equal parts. -/
def series (phrase : Phrase) (form : Form) : Form :=
  oneOf [seq [part phrase, part phrase], form]

/-- A form and then a phrase that is a row, if there is more. -/
def listOf (first : Form) (further : Phrase) : Form :=
  seq [first, optional (part further)]

/-- A form behind a comma. -/
def behindComma (form : Form) : Form := seq [",", form]

/-- A form in braces. -/
def braced (form : Form) : Form := seq ["\x7b", form, "\x7d"]

/-- A form in parentheses. -/
def parenthesized (form : Form) : Form := seq ["(", form, ")"]

/-- A form in brackets. -/
def bracketed (form : Form) : Form := seq ["[", form, "]"]

end Form

end Script

end AssertLint
