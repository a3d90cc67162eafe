import AssertLint.Linter

/-!
# The calls of a run as they are made

A run hands nodes to listeners, one call after the other.  This file writes the run
once more as a computation that keeps a record of its calls, so that the record is there
even if the computation fails, and shows that it has the outcome of the run and that the
record holds the calls of its lints.
-/

namespace AssertLint

namespace Linter

/-- Computations that make calls and keep a record of them. -/
abbrev Recording := StateM (List Call)

/-! ## The run with its record -/

/-- Hands a node to its listener. -/
def Call.make (file : File) (call : Call) : Recording (List Violation) := do
  modify (· ++ [call])
  return call.violations file

/-- Makes calls one after the other. -/
def makeAll (file : File) : List Call → Recording (List Violation)
  | [] => return []
  | call :: rest => do
      let first ← call.make file
      let others ← makeAll file rest
      return first ++ others

/-- Lints a source. -/
def lintRecording (parse : Source → Node) (listeners : List CompiledListener)
    (source : Source) : Recording Lint := do
  let file := File.ofTree source (parse source)
  let calls := callsFor listeners (captures file listeners)
  let found ← makeAll file calls
  return ⟨calls, stableSort mayPrecede found⟩

/-- Applies fixes and lints again. -/
def fixRecording (lint : Source → Recording Lint) :
    Nat → Source → List Fix → Recording (Source × List Lint)
  | 0, source, _ => return (source, [])
  | remaining + 1, source, fixes =>
      if fixes.isEmpty then
        return (source, [])
      else
        let following := Fix.applyAll source fixes
        if following = source then
          return (source, [])
        else if remaining = 0 then
          return (following, [])
        else do
          let outcome ← lint following
          let (final, later) ← fixRecording lint remaining following outcome.fixes
          return (final, outcome :: later)

/-- Runs compiled listeners over a source. -/
def runListenersRecording (parse : Source → Node) (listeners : List CompiledListener)
    (fix : Bool) (source : Source) : Recording Outcome := do
  let first ← lintRecording parse listeners source
  if fix then
    let (final, later) ←
      fixRecording (lintRecording parse listeners) maxPasses source first.fixes
    return ⟨first.violations, some final, first :: later⟩
  else
    return ⟨first.violations, none, [first]⟩

/-- Runs the rules of a plugin over a source. -/
def runRecording (parse : Source → Node) (reader : QueryReader) (plugin : Plugin)
    (config : Config) (source : Source) : ExceptT LintError Recording Outcome := do
  let rules ← liftExcept (enabledRules plugin config)
  let listeners ← liftExcept (compileAll reader rules)
  runListenersRecording parse listeners config.fix source
where
  /-- A result that is there or not, without any call. -/
  liftExcept {α : Type} (result : Except LintError α) : ExceptT LintError Recording α :=
    ExceptT.mk (pure result)

/-- The outcome of a run, and the calls that it has made when it ends or fails. -/
def recordedRun (parse : Source → Node) (reader : QueryReader) (plugin : Plugin)
    (config : Config) (source : Source) : Except LintError Outcome × List Call :=
  (runRecording parse reader plugin config source).run []

/-! ## The record holds the calls of the lints -/

/-- A computation has a result and makes calls, whatever was called before. -/
def Makes {α : Type} (action : Recording α) (result : α) (calls : List Call) : Prop :=
  ∀ made, action made = (result, made ++ calls)

namespace Makes

variable {α β : Type} {action : Recording α} {result : α} {calls : List Call}

theorem pure (result : α) : Makes (Pure.pure result) result [] := by
  intro made
  rw [List.append_nil]
  rfl

theorem bind {following : α → Recording β} {last : β} {later : List Call}
    (first : Makes action result calls) (second : Makes (following result) last later) :
    Makes (action >>= following) last (calls ++ later) := by
  intro made
  change following (action made).1 (action made).2 = _
  rw [first made, second, List.append_assoc]

/-- A result that is only used makes no further calls. -/
theorem bind_pure {following : α → Recording β} {last : β} (first : Makes action result calls)
    (ends : following result = Pure.pure last) : Makes (action >>= following) last calls := by
  have second : Makes (following result) last [] := ends ▸ Makes.pure last
  simpa using first.bind second

end Makes

theorem makes_makeAll (file : File) (calls : List Call) :
    Makes (makeAll file calls) (calls.flatMap (·.violations file)) calls := by
  induction calls with
  | nil => exact .pure []
  | cons call rest ih =>
      have made : Makes (call.make file) (call.violations file) [call] := fun _ => rfl
      rw [makeAll, List.flatMap_cons]
      exact made.bind (ih.bind_pure rfl)

theorem makes_lintRecording (parse : Source → Node) (listeners : List CompiledListener)
    (source : Source) :
    Makes (lintRecording parse listeners source) (lint parse listeners source)
      (lint parse listeners source).calls :=
  (makes_makeAll (File.ofTree source (parse source)) _).bind_pure rfl

theorem makes_fixRecording {recording : Source → Recording Lint} {lint : Source → Lint}
    (lints : ∀ source, Makes (recording source) (lint source) (lint source).calls)
    (remaining : Nat) (source : Source) (fixes : List Fix) :
    Makes (fixRecording recording remaining source fixes) (fixFrom lint remaining source fixes)
      ((fixFrom lint remaining source fixes).2.flatMap Lint.calls) := by
  induction remaining generalizing source fixes with
  | zero => exact .pure _
  | succ remaining ih =>
      rw [fixRecording, fixFrom]
      split
      next => exact .pure _
      next =>
        dsimp only
        split
        next => exact .pure _
        next =>
          split
          next => exact .pure _
          next =>
            rw [List.flatMap_cons]
            exact (lints _).bind ((ih _ _).bind_pure rfl)

theorem makes_runListenersRecording (parse : Source → Node) (listeners : List CompiledListener)
    (fix : Bool) (source : Source) :
    Makes (runListenersRecording parse listeners fix source)
      (runListeners parse listeners fix source)
      ((runListeners parse listeners fix source).lints.flatMap Lint.calls) := by
  have lints := makes_lintRecording parse listeners
  rw [runListenersRecording, runListeners]
  cases fix with
  | false =>
      rw [if_neg Bool.false_ne_true, List.flatMap_singleton]
      exact (lints source).bind_pure rfl
  | true =>
      rw [if_pos rfl, List.flatMap_cons]
      exact (lints source).bind ((makes_fixRecording lints maxPasses source _).bind_pure rfl)

/-- A result that is asked for without a call. -/
theorem run_liftExcept_bind {α β : Type} (result : Except LintError α)
    (following : α → ExceptT LintError Recording β) (made : List Call) :
    (runRecording.liftExcept result >>= following).run made =
      match result with
      | .error problem => (.error problem, made)
      | .ok value => (following value).run made := by
  cases result <;> rfl

/-- The calls of the lints of a run, none if there is no outcome. -/
def callsOf : Except LintError Outcome → List Call
  | .ok outcome => outcome.lints.flatMap Lint.calls
  | .error _ => []

/-- The recorded run has the outcome of the run, and the record holds the calls of its
lints. -/
theorem recordedRun_eq (parse : Source → Node) (reader : QueryReader) (plugin : Plugin)
    (config : Config) (source : Source) :
    recordedRun parse reader plugin config source =
      (run parse reader plugin config source,
        callsOf (run parse reader plugin config source)) := by
  rw [recordedRun, runRecording, run_liftExcept_bind, run]
  cases enabledRules plugin config with
  | error problem => rfl
  | ok rules =>
      dsimp only
      rw [run_liftExcept_bind]
      cases compiled : compileAll reader rules with
      | error problem => simp [compiled, bind, Except.bind, callsOf]
      | ok listeners =>
          have made := makes_runListenersRecording parse listeners config.fix source []
          simp only [compiled, bind, Except.bind, pure, Except.pure, callsOf]
          change (Except.ok (runListenersRecording parse listeners config.fix source []).1,
            (runListenersRecording parse listeners config.fix source []).2) = _
          rw [made, List.nil_append]

end Linter

end AssertLint
