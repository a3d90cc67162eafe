import AssertLint.Script.Table
import AssertLint.Tree.Node

/-!
# Branches

A branch is a terminal or a phrase as it was read, with the branches of its
parts.  Comments may stand between the parts; they belong to no production.
From branches the nodes of the tree are made: phrases that become no node hand
their nodes on to the next phrase above.
-/

namespace AssertLint

namespace Script

/-- A symbol as it was read. -/
structure Branch where
  symbol : Nat
  span : Span
  /-- The labels of the parts that are no comments. -/
  labels : List Label
  /-- How much the branch is favored over another reading. -/
  favor : Int
  isComment : Bool
  children : List Branch
  deriving Inhabited

namespace Branch

/-- The branch of a terminal. -/
def ofTerminal (terminal start stop : Nat) (isComment : Bool) : Branch :=
  ⟨terminal, ⟨start, stop⟩, [], 0, isComment, []⟩

/-- The branch of a phrase whose parts lie from `start` on. -/
def ofPhrase (stage : Stage) (start : Nat) (children : List Branch) : Branch where
  symbol := stage.phrase
  span :=
    ⟨(children.head?.map (·.span.start)).getD start,
      (children.getLast?.map (·.span.stop)).getD start⟩
  labels := stage.passed
  favor := children.foldl (fun favor child => favor + child.favor) 0
  isComment := false
  children := children

mutual

/-- Compares two branches symbol by symbol, from the outside to the inside and
from left to right. -/
def compareTo : Branch → Branch → Ordering
  | ⟨symbol, _, _, _, _, children⟩, other =>
      if symbol < other.symbol then .lt
      else if other.symbol < symbol then .gt
      else if children.length < other.children.length then .lt
      else if other.children.length < children.length then .gt
      else compareLists children other.children

/-- Compares two lists of branches. -/
def compareLists : List Branch → List Branch → Ordering
  | [], _ => .eq
  | _ :: _, [] => .eq
  | branch :: rest, other :: others =>
      match branch.compareTo other with
      | .eq => compareLists rest others
      | decision => decision

end

/-- Whether the second of two readings of a text is the better one: the more
favored, and else the one that compares as less. -/
def isBetter (first second : Branch) : Bool :=
  if first.favor < second.favor then true
  else if second.favor < first.favor then false
  else first.compareTo second = .gt

/-- Whether two branches take the same part in what is above them. -/
def isLike (first second : Branch) : Bool :=
  first.symbol = second.symbol && first.span = second.span &&
    first.children.length = second.children.length && first.isComment = second.isComment

mutual

/-- The nodes of a branch with a given label, followed by other nodes. -/
def nodesBefore (kinds : Array (Option Kind)) (label : Label) (following : List Node) :
    Branch → List Node
  | ⟨symbol, span, labels, _, _, children⟩ =>
      match label.kind.or (kinds.getD symbol none) with
      | some kind =>
          ⟨kind, label.field, span, nodesOfParts kinds none [] labels children⟩ :: following
      | none => nodesOfParts kinds label.field following labels children

/-- The nodes of the parts of a branch, followed by other nodes.  A part
without a field of its own is in the field of the branch. -/
def nodesOfParts (kinds : Array (Option Kind)) (field : Option Field)
    (following : List Node) : List Label → List Branch → List Node
  | _, [] => following
  | labels, branch :: rest =>
      if branch.isComment then
        branch.nodesBefore kinds ⟨none, none⟩ (nodesOfParts kinds field following labels rest)
      else
        match labels with
        | [] =>
            branch.nodesBefore kinds ⟨none, field⟩ (nodesOfParts kinds field following [] rest)
        | label :: labels =>
            branch.nodesBefore kinds ⟨label.kind, label.field.or field⟩
              (nodesOfParts kinds field following labels rest)

end

end Branch

end Script

end AssertLint
