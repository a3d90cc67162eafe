import AssertLint.Rule.Basic

/-!
# Rules described by data

A rule can be given as data: for every captured node it makes the same reports,
whose values and edits depend on the node in a fixed way.
-/

namespace AssertLint

namespace Described

/-- The range that an edit starts from. -/
inductive Anchor where
  | node
  | nodeStart
  | nodeEnd
  | fileStart
  deriving DecidableEq, Repr

/-- An edit relative to a node.  Its range is that of the anchor, moved at both
ends, but never before the start of the file. -/
structure EditPlan where
  anchor : Anchor
  startShift : Int
  stopShift : Int
  text : String
  deriving DecidableEq, Repr

/-- The range of the anchor of an edit to a node. -/
def Anchor.span (node : Cursor) : Anchor → Span
  | .node => node.span
  | .nodeStart => ⟨node.span.start, node.span.start⟩
  | .nodeEnd => ⟨node.span.stop, node.span.stop⟩
  | .fileStart => ⟨0, 0⟩

/-- The edit for a node. -/
def EditPlan.edit (plan : EditPlan) (node : Cursor) : Edit :=
  let base := plan.anchor.span node
  { span :=
      ⟨(Int.ofNat base.start + plan.startShift).toNat,
        (Int.ofNat base.stop + plan.stopShift).toNat⟩
    text := plan.text }

/-- A report to make about every captured node. -/
structure ReportPlan where
  messageId : String
  data : List (String × String)
  edits : Option (List EditPlan)
  deriving DecidableEq, Repr

/-- The value that a planned value stands for.  Two spellings stand for the text
and the kind of the node. -/
def valueFor (file : File) (node : Cursor) (value : String) : String :=
  if value = "$text" then node.text file.source
  else if value = "$kind" then node.kind.name
  else value

/-- The report about a node. -/
def ReportPlan.report (plan : ReportPlan) (file : File) (node : Cursor) : Report :=
  { node := node
    messageId := plan.messageId
    data := plan.data.map fun entry => (entry.1, valueFor file node entry.2)
    edits := plan.edits.map fun edits => edits.map (·.edit node) }

/-- A listener that makes the planned reports. -/
def listener (query : String) (captureName : Option String) (reports : List ReportPlan) :
    Listener :=
  ⟨query, captureName, fun file node => reports.map (·.report file node)⟩

end Described

end AssertLint
