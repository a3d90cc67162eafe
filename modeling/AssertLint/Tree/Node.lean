import AssertLint.Text.Source
import AssertLint.Tree.Kind

/-!
# Syntax trees

A node has a kind, the range of the source that it covers, its children in
order, and the field of its parent in which it stands.  A cursor is a node
together with the way from it up to the root, so two occurrences of equal
subtrees are told apart by their addresses.
-/

namespace AssertLint

/-- A syntax node with everything below it. -/
structure Node where
  kind : Kind
  field : Option Field
  span : Span
  children : List Node
  deriving Inhabited

namespace Node

/-- The node in a given field of its parent. -/
def inField (node : Node) (field : Field) : Node :=
  { node with field := some field }

/-- A node without a field. -/
def ofChildren (kind : Kind) (start stop : Nat) (children : List Node) : Node :=
  { kind := kind, field := none, span := ⟨start, stop⟩, children := children }

/-- A node without children. -/
def leaf (kind : Kind) (start stop : Nat) : Node :=
  ofChildren kind start stop []

mutual

/-- The number of nodes of a tree. -/
def size : Node → Nat
  | ⟨_, _, _, children⟩ => sizeOfList children + 1

/-- The number of nodes of a list of trees. -/
def sizeOfList : List Node → Nat
  | [] => 0
  | node :: rest => node.size + sizeOfList rest

end

mutual

/-- Children follow each other in the source, lie inside their parent, and all
ranges can be cut out of the source. -/
def WellPlaced (source : Source) : Node → Prop
  | ⟨_, _, span, children⟩ =>
      source.isValid span = true ∧ WellPlacedBetween source span.start span.stop children

/-- Trees follow each other between two offsets. -/
def WellPlacedBetween (source : Source) (low high : Nat) : List Node → Prop
  | [] => low ≤ high
  | node :: rest =>
      low ≤ node.span.start ∧ node.WellPlaced source ∧
        WellPlacedBetween source node.span.stop high rest

end

end Node

/-- One step of the way from a node up to the root: the parent, and the place
of the node among the parent's children. -/
structure Ascent where
  parent : Node
  index : Nat
  deriving Inhabited

/-- A node at its place in a tree. -/
structure Cursor where
  node : Node
  ascents : List Ascent
  deriving Inhabited

/-- The place of a node in its tree: its index among its siblings, that of its
parent, and so on up to the root, which has the empty address. -/
abbrev Address := List Nat

namespace Cursor

/-- The root of a tree. -/
def root (tree : Node) : Cursor := ⟨tree, []⟩

/-- What the node is. -/
def kind (cursor : Cursor) : Kind := cursor.node.kind

/-- The range that the node covers. -/
def span (cursor : Cursor) : Span := cursor.node.span

/-- Where the node is in its tree.  Two cursors into one tree are at the same
node exactly when their addresses agree. -/
def address (cursor : Cursor) : Address := cursor.ascents.map Ascent.index

/-- How far the node is from the root. -/
def depth (cursor : Cursor) : Nat := cursor.ascents.length

/-- Whether the node is named, that is, not a token. -/
def isNamed (cursor : Cursor) : Bool := cursor.kind.isNamed

/-- The text of the node. -/
def text (cursor : Cursor) (source : Source) : String := source.text cursor.span

/-- The parent, except for the root. -/
def parent? (cursor : Cursor) : Option Cursor :=
  match cursor.ascents with
  | [] => none
  | ascent :: rest => some ⟨ascent.parent, rest⟩

/-- The cursors met on a way up, the nearest first. -/
def ancestorsAlong : List Ascent → List Cursor
  | [] => []
  | ascent :: rest => ⟨ascent.parent, rest⟩ :: ancestorsAlong rest

/-- The parent, its parent, and so on up to the root. -/
def ancestors (cursor : Cursor) : List Cursor := ancestorsAlong cursor.ascents

/-- The node itself and then its ancestors. -/
def selfAndAncestors (cursor : Cursor) : List Cursor := cursor :: cursor.ancestors

/-- The child with a given index. -/
def child? (cursor : Cursor) (index : Nat) : Option Cursor :=
  cursor.node.children[index]?.map fun node => ⟨node, ⟨cursor.node, index⟩ :: cursor.ascents⟩

/-- The children in order. -/
def children (cursor : Cursor) : List Cursor :=
  cursor.node.children.mapIdx fun index node => ⟨node, ⟨cursor.node, index⟩ :: cursor.ascents⟩

/-- The named children in order. -/
def namedChildren (cursor : Cursor) : List Cursor :=
  cursor.children.filter (·.isNamed)

/-- The named children that are not comments. -/
def contentChildren (cursor : Cursor) : List Cursor :=
  cursor.namedChildren.filter (·.kind ≠ .comment)

/-- The first named child that is not a comment. -/
def firstContent? (cursor : Cursor) : Option Cursor :=
  cursor.contentChildren.head?

/-- The first child in a given field. -/
def field? (cursor : Cursor) (field : Field) : Option Cursor :=
  cursor.children.find? (·.node.field = some field)

/-- The first child. -/
def firstChild? (cursor : Cursor) : Option Cursor := cursor.child? 0

/-- The next child of the parent. -/
def nextSibling? (cursor : Cursor) : Option Cursor :=
  match cursor.ascents with
  | [] => none
  | ascent :: rest =>
      ascent.parent.children[ascent.index + 1]?.map fun node =>
        ⟨node, ⟨ascent.parent, ascent.index + 1⟩ :: rest⟩

mutual

/-- The nodes of a tree from the root down, parents before children and
children in order, given the way up from the tree. -/
def preorderOf (ascents : List Ascent) : Node → List Cursor
  | ⟨kind, field, span, children⟩ =>
      ⟨⟨kind, field, span, children⟩, ascents⟩ ::
        preorderOfList ⟨kind, field, span, children⟩ ascents 0 children

/-- The nodes of the children of `parent` from a given index on. -/
def preorderOfList (parent : Node) (ascents : List Ascent) (index : Nat) :
    List Node → List Cursor
  | [] => []
  | node :: rest =>
      preorderOf (⟨parent, index⟩ :: ascents) node ++
        preorderOfList parent ascents (index + 1) rest

end

/-- The node and everything below it, parents before children and children in
order. -/
def preorder (cursor : Cursor) : List Cursor := preorderOf cursor.ascents cursor.node

end Cursor

/-- The nodes of a tree, parents before children and children in order. -/
def Node.cursors (tree : Node) : List Cursor := (Cursor.root tree).preorder

end AssertLint
