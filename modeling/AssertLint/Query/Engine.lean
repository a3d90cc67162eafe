import AssertLint.Query.Match
import AssertLint.Query.Reader

/-!
# Readers of queries

A run needs little of a query: the names of its captures, and the nodes that it
captures.  How a text becomes such a query is left to a reader.  The reader of
this library knows descriptions by the listed kinds, by fields and by children,
alternatives, and the conditions that texts are equal and that a text matches a
pattern.  Conditions of other names have no effect, and to a text with more than
that it answers with a fault.
-/

namespace AssertLint

/-- A query that has been read: the names of its captures, and the nodes of a tree
over a source that it captures under a name, as often as it captures them. -/
structure ReadQuery where
  captureNames : List String
  capturedNodes : Source → Node → String → List Cursor

/-- A reader of queries. -/
abbrev QueryReader := String → Except Query.Fault ReadQuery

namespace Query

/-- The query as a run needs it. -/
def asRead (query : Query) : ReadQuery := ⟨query.captureNames, query.capturedNodes⟩

/-- The reader of this library. -/
def reader : QueryReader := fun text => (compile text).map asRead

end Query

end AssertLint
