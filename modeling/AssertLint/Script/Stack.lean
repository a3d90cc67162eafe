import AssertLint.Script.Branch
import AssertLint.Script.Table

/-!
# Stacks that share their lower parts

What has been read so far lies on a stack.  When a text can be read in several
ways, there are several stacks, and they share what they have in common: a knot
is a point that stacks run through, and each of its links leads down to another
knot over one branch.  Two ways of reading that have come to the same state at
the same place are joined into one knot with several links, so later text is
read once for both of them.
-/

namespace AssertLint

namespace Script

/-- A way down from a knot. -/
structure Link where
  below : Nat
  branch : Branch
  deriving Inhabited

/-- A point that stacks run through. -/
structure Knot where
  state : Nat
  /-- The offset up to which the text has been read. -/
  offset : Nat
  /-- How much the branches below are favored. -/
  favor : Int
  links : List Link
  deriving Inhabited

/-- All knots, by their numbers. -/
abbrev Knots := Array Knot

/-- A way down from a knot that has been followed for a while. -/
structure Path where
  knot : Nat
  /-- The branches on the way, from left to right. -/
  branches : List Branch
  /-- How many of the branches are no comments. -/
  count : Nat

/-- Follows a link further down. -/
def Path.follow (path : Path) (link : Link) : Path :=
  ⟨link.below, link.branch :: path.branches,
    if link.branch.isComment then path.count else path.count + 1⟩

namespace Knots

/-- The knot with a number. -/
def knot (knots : Knots) (number : Nat) : Knot := knots.getD number default

/-- The most links that a knot has. -/
def linkLimit : Nat := 8

/-- The most ways down that are followed at once. -/
def pathLimit : Nat := 64

/-- Puts a branch on top of a knot.  The number of the new knot comes first. -/
def push (knots : Knots) (below : Nat) (branch : Branch) (state offset : Nat) : Nat × Knots :=
  let number := knots.size
  let favor := (knots.knot below).favor + branch.favor
  (number, Array.push knots ⟨state, offset, favor, [⟨below, branch⟩]⟩)

/-- Whether two knots can be joined. -/
def areAlike (knots : Knots) (first second : Nat) : Bool :=
  (knots.knot first).state = (knots.knot second).state &&
    (knots.knot first).offset = (knots.knot second).offset

/-- Whether two links can be joined. -/
def canJoin (knots : Knots) (first second : Link) : Bool :=
  first.branch.isLike second.branch &&
    (first.below = second.below || knots.areAlike first.below second.below)

/-- Adds a link to a knot.  A link that leads to the same knot over a like
branch is replaced if the new one is more favored, and a link that leads to a
like knot is joined with the new one. -/
def addLink : (bound : Nat) → Knots → (target : Nat) → Link → Knots
  | 0, knots, _, _ => knots
  | bound + 1, knots, target, link =>
      if link.below = target then knots
      else
        let knot := knots.knot target
        let favor := (knots.knot link.below).favor + link.branch.favor
        match knot.links.findIdx? (knots.canJoin · link) with
        | some index =>
            let existing := knot.links.getD index default
            if existing.below = link.below then
              if existing.branch.favor < link.branch.favor then
                knots.modify target fun knot =>
                  { knot with links := knot.links.set index link, favor := favor }
              else
                knots
            else
              let joined := (knots.knot link.below).links.foldl
                (fun knots lower => addLink bound knots existing.below lower) knots
              joined.modify target fun knot => { knot with favor := max knot.favor favor }
        | none =>
            if knot.links.length < linkLimit then
              knots.modify target fun knot =>
                { knot with links := knot.links ++ [link], favor := max knot.favor favor }
            else
              knots

/-- Adds the links of one knot to another one. -/
def join (knots : Knots) (target source : Nat) : Knots :=
  (knots.knot source).links.foldl
    (fun joined link => joined.addLink (knots.size + 1) target link) knots

/-- Follows paths down until they are as wanted.  Where a knot has several
links, the path over the first one is the first. -/
def follow (knots : Knots) (isWanted : Path → Bool) : (bound : Nat) → List Path → List Path
  | 0, _ => []
  | _, [] => []
  | bound + 1, paths =>
      let ongoing := paths.filter (!isWanted ·)
      let kept := ongoing.filterMap fun path =>
        (knots.knot path.knot).links.head?.map (Path.follow path)
      let added := ongoing.flatMap fun path =>
        (knots.knot path.knot).links.tail.map (Path.follow path)
      paths.filter isWanted ++
        knots.follow isWanted bound (kept ++ added.take (pathLimit - kept.length))

/-- The paths from a knot over a number of branches that are no comments. -/
def pathsOver (knots : Knots) (number count : Nat) : List Path :=
  knots.follow (·.count = count) (knots.size + 1) [⟨number, [], 0⟩]

/-- The paths from a knot down to the ground. -/
def pathsToGround (knots : Knots) (number : Nat) : List Path :=
  knots.follow (fun path => (knots.knot path.knot).links.isEmpty) (knots.size + 1)
    [⟨number, [], 0⟩]

end Knots

/-- Paths that end in the same knot: the rows of branches on them. -/
structure PathGroup where
  knot : Nat
  first : List Branch
  others : List (List Branch)

namespace PathGroup

/-- Puts a path into the group of its knot. -/
def insert (path : Path) : List PathGroup → List PathGroup
  | [] => [⟨path.knot, path.branches, []⟩]
  | group :: rest =>
      if group.knot = path.knot then
        { group with others := group.others ++ [path.branches] } :: rest
      else
        group :: insert path rest

/-- Paths in groups, in the order of the first paths of the groups. -/
def ofPaths (paths : List Path) : List PathGroup :=
  paths.foldl (fun groups path => insert path groups) []

end PathGroup

end Script

end AssertLint
