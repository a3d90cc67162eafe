import AssertLint.Script.Reading.Unfinished

/-!
# From text to tree

The tree of a text is made from the best way to read it as a script.  A text
that is no script still gets a tree: its root says so, and below it stands what
could be read.  Reading does not recover from errors.  It ends where no way goes on,
so the first error in the text makes the root an error node over the parts in front of
it, and no error node stands further down.  Elements of markup within a script are
errors, too.
-/

namespace AssertLint

namespace Script

/-- Reads on until no way can go on. -/
def Reading.run (table : Table) (bound : Nat) : (fuel : Nat) → Reader Unit
  | 0 => return
  | fuel + 1 => do
      stepAll table bound bound 0
      modify condense
      if ← ask (·.ways.any (·.progress = .active)) then
        run table bound fuel
      else
        return

/-- More steps than reading a text of a given length takes: between two
characters only as many phrases can end or begin as are nested there. -/
def stepBound (length : Nat) : Nat := 64 * (length + 16)

/-- The root of a tree over a text that is no script. -/
def errorRoot (length : Nat) (children : List Node) : Node :=
  Node.ofChildren .errorRoot ((children.head?.map (·.span.start)).getD length) length children

namespace Table

/-- How a text is read. -/
def read (table : Table) (source : Source) : Reading :=
  let bound := stepBound source.byteLength
  ((Reading.run table bound bound).run (Reading.initial table source)).2

/-- The tree of a text. -/
def tree (table : Table) (source : Source) : Node :=
  let reading := table.read source
  match reading.result with
  | some root =>
      match root.nodesBefore table.kinds ⟨none, none⟩ [] with
      | [tree] => tree
      | nodes => errorRoot reading.length nodes
  | none =>
      let branches := reading.unfinished table (stepBound reading.length)
      errorRoot reading.length (Branch.nodesOfParts table.kinds none [] [] branches)

end Table

/-- The tree of a script. -/
def parse (source : Source) : Node := scriptTable.tree source

end Script

end AssertLint
