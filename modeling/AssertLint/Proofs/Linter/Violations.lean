import AssertLint.Linter
import AssertLint.Proofs.Text.Sorted

/-!
# Where violations come from

Every violation of a lint goes back to a report that a listener makes about a
node that its query captures.
-/

namespace AssertLint

namespace Lint

/-- The reports that the calls of a lint make in a file. -/
def reports (file : File) (lint : Lint) : List Report :=
  lint.calls.flatMap fun call => call.listener.respond file call.node

end Lint

namespace Linter

namespace Match

theorem dropRepeated_sublist (found : List Match) : (dropRepeated found).Sublist found := by
  induction found with
  | nil => exact List.Sublist.slnil
  | cons first rest ih =>
      rw [dropRepeated]
      cases kept : dropRepeated rest with
      | nil => simp
      | cons second others =>
          rw [kept] at ih
          simp only
          split
          · exact ih.cons first
          · exact ih.cons_cons first

/-- Dropping repetitions invents no match. -/
theorem mem_of_mem_dropRepeated {entry : Match} {found : List Match}
    (member : entry ∈ dropRepeated found) : entry ∈ found :=
  (dropRepeated_sublist found).subset member

theorem mem_of_mem_inOrder {entry : Match} {found : List Match}
    (member : entry ∈ inOrder found) : entry ∈ found :=
  mem_stableSort.mp (mem_of_mem_dropRepeated member)

end Match

/-- A capture belongs to the listener whose place it holds. -/
theorem exists_listener_of_mem_captures {file : File} {listeners : List CompiledListener}
    {entry : Match} (member : entry ∈ captures file listeners) :
    ∃ listener, listeners[entry.listener]? = some listener ∧
      entry.node ∈ listener.query.capturedNodes file.source file.tree listener.capture := by
  obtain ⟨found, foundMem, entryMem⟩ := List.mem_flatten.mp member
  obtain ⟨index, bound, rfl⟩ := List.mem_mapIdx.mp foundMem
  obtain ⟨node, captured, rfl⟩ := List.mem_map.mp entryMem
  exact ⟨listeners[index], List.getElem?_eq_getElem bound, captured⟩

/-- A call hands a listener a node that its query captures. -/
theorem captured_of_mem_callsFor {file : File} {listeners : List CompiledListener}
    {call : Call} (member : call ∈ callsFor listeners (captures file listeners)) :
    call.listener ∈ listeners ∧
      call.node ∈ call.listener.query.capturedNodes file.source file.tree
        call.listener.capture := by
  obtain ⟨entry, entryMem, made⟩ := List.mem_filterMap.mp member
  obtain ⟨listener, found, captured⟩ :=
    exists_listener_of_mem_captures (Match.mem_of_mem_inOrder entryMem)
  rw [found, Option.map_some, Option.some.injEq] at made
  subst made
  exact ⟨List.mem_of_getElem? found, captured⟩

/-- Every violation of a lint comes from a report about a captured node. -/
theorem exists_report_of_mem_violations {parse : Source → Node}
    {listeners : List CompiledListener} {source : Source} {violation : Violation}
    (member : violation ∈ (lint parse listeners source).violations) :
    ∃ listener ∈ listeners,
      ∃ node ∈ listener.query.capturedNodes source (parse source) listener.capture,
        ∃ report ∈ listener.respond (File.ofTree source (parse source)) node,
          violation = listener.info.violation source report := by
  have reported := mem_stableSort.mp member
  obtain ⟨call, callMem, violationMem⟩ := List.mem_flatMap.mp reported
  obtain ⟨listenerMem, captured⟩ := captured_of_mem_callsFor callMem
  obtain ⟨report, reportMem, made⟩ := List.mem_map.mp violationMem
  exact ⟨call.listener, listenerMem, call.node, captured, report, reportMem, made.symm⟩

/-- A run whose rules are known and compile lints with their listeners. -/
theorem run_eq_ok {parse : Source → Node} {reader : QueryReader} {plugin : Plugin}
    {config : Config}
    {source : Source} {rules : List Rule} {listeners : List CompiledListener}
    (enabled : enabledRules plugin config = .ok rules)
    (compiled : compileAll reader rules = .ok listeners) :
    run parse reader plugin config source =
      .ok (runListeners parse listeners config.fix source) := by
  simp only [run, enabled, compiled, bind, Except.bind, pure, Except.pure]

/-- A run reports the violations of the source as given, whether it fixes or not. -/
@[simp]
theorem violations_runListeners (parse : Source → Node) (listeners : List CompiledListener)
    (fix : Bool) (source : Source) :
    (runListeners parse listeners fix source).violations =
      (lint parse listeners source).violations := by
  cases fix <;> rfl

end Linter

end AssertLint
