import AssertLint.Proofs.Linter.Compiled
import AssertLint.Proofs.Linter.Recorded

/-!
# Why a run does not start

Before a run looks at a source it looks up the names of its rules and then compiles
what their listeners ask for.  It fails at the first name that is no rule, or else at
the first listener whose query cannot be read or leaves the capture open.  Nothing
else decides: neither the source nor what a listener would do with a node.  So a run
that fails has made no call.
-/

namespace AssertLint

/-- The first of some values that raises a problem raises this one. -/
def FirstRaised {α : Type} (raises : α → LintError → Prop) (values : List α)
    (problem : LintError) : Prop :=
  ∃ before value after, values = before ++ value :: after ∧
    (∀ earlier ∈ before, ∀ other, ¬ raises earlier other) ∧ raises value problem

namespace FirstRaised

variable {α : Type} {raises : α → LintError → Prop} {values : List α} {problem : LintError}

@[simp]
theorem nil_iff : FirstRaised raises [] problem ↔ False := by
  simp [FirstRaised]

theorem cons_iff {value : α} :
    FirstRaised raises (value :: values) problem ↔
      raises value problem ∨
        (∀ other, ¬ raises value other) ∧ FirstRaised raises values problem := by
  constructor
  · rintro ⟨before, found, after, split, clean, raised⟩
    cases before with
    | nil =>
        obtain ⟨rfl, rfl⟩ := List.cons.inj split
        exact Or.inl raised
    | cons first before =>
        obtain ⟨rfl, rfl⟩ := List.cons.inj split
        obtain ⟨firstClean, restClean⟩ := List.forall_mem_cons.mp clean
        exact Or.inr ⟨firstClean, before, found, after, rfl, restClean, raised⟩
  · rintro (raised | ⟨valueClean, before, found, after, rfl, clean, raised⟩)
    · exact ⟨[], value, values, rfl, by simp, raised⟩
    · have allClean := List.forall_mem_cons.mpr ⟨valueClean, clean⟩
      exact ⟨value :: before, found, after, rfl, allClean, raised⟩

theorem append_iff {others : List α} :
    FirstRaised raises (values ++ others) problem ↔
      FirstRaised raises values problem ∨
        (∀ value ∈ values, ∀ other, ¬ raises value other) ∧ FirstRaised raises others problem := by
  induction values with
  | nil => simp
  | cons value values ih =>
      rw [List.cons_append, cons_iff, cons_iff, ih, List.forall_mem_cons]
      tauto

theorem exists_iff :
    (∃ problem, FirstRaised raises values problem) ↔
      ∃ value ∈ values, ∃ problem, raises value problem := by
  induction values with
  | nil => simp
  | cons value values ih =>
      rw [List.exists_mem_cons_iff, ← ih]
      constructor
      · rintro ⟨problem, raised⟩
        rcases cons_iff.mp raised with here | ⟨-, later⟩
        · exact Or.inl ⟨problem, here⟩
        · exact Or.inr ⟨problem, later⟩
      · intro raised
        by_cases here : ∃ problem, raises value problem
        · obtain ⟨problem, here⟩ := here
          exact ⟨problem, cons_iff.mpr (Or.inl here)⟩
        · obtain ⟨problem, later⟩ := raised.resolve_left here
          exact ⟨problem, cons_iff.mpr (Or.inr ⟨not_exists.mp here, later⟩)⟩

end FirstRaised

namespace Linter

theorem bind_eq_error_iff {ε α β : Type} {first : Except ε α} {following : α → Except ε β}
    {problem : ε} :
    (first >>= following) = .error problem ↔
      first = .error problem ∨ ∃ value, first = .ok value ∧ following value = .error problem := by
  cases first with
  | error problem => simp [bind, Except.bind]
  | ok value => simp [bind, Except.bind]

/-- Of two results that are asked for one after the other, the second matters only if the
first is there. -/
theorem pair_eq_error_iff {ε α β γ : Type} {first : Except ε α} {second : Except ε β}
    {join : α → β → γ} {problem : ε} :
    (do let value ← first; let other ← second; pure (join value other)) = .error problem ↔
      first = .error problem ∨ (∀ other, ¬ first = .error other) ∧ second = .error problem := by
  cases first with
  | error other => simp [bind, Except.bind]
  | ok value => cases second <;> simp [bind, Except.bind, pure, Except.pure]

theorem mapM_eq_error_iff {α β : Type} {action : α → Except LintError β} {values : List α}
    {problem : LintError} :
    values.mapM action = .error problem ↔
      FirstRaised (fun value problem => action value = .error problem) values problem := by
  induction values with
  | nil => simp [pure, Except.pure]
  | cons value values ih =>
      rw [List.mapM_cons, pair_eq_error_iff, FirstRaised.cons_iff, ih]

end Linter

/-! ## Names of rules -/

namespace Plugin

/-- A name that is no rule of the plugin is an unknown rule. -/
inductive Lacks (plugin : Plugin) : String → LintError → Prop where
  | unknownRule {name : String} (unknown : ∀ rule ∈ plugin.rules, rule.info.name ≠ name) :
      Lacks plugin name (.unknownRule name)

/-- The rules that are enabled by a list of names, all of them by the empty list. -/
def enabled (plugin : Plugin) (names : List String) : List Rule :=
  if names = [] then plugin.rules else names.filterMap plugin.rule?

variable {plugin : Plugin} {name : String} {problem : LintError}

theorem exists_lacks_iff :
    (∃ problem, plugin.Lacks name problem) ↔ ∀ rule ∈ plugin.rules, rule.info.name ≠ name := by
  constructor
  · rintro ⟨problem, ⟨unknown⟩⟩
    exact unknown
  · exact fun unknown => ⟨_, .unknownRule unknown⟩

theorem rule?_eq_none_iff :
    plugin.rule? name = none ↔ ∀ rule ∈ plugin.rules, rule.info.name ≠ name := by
  simp [rule?]

theorem lookUp_eq_error_iff :
    (match plugin.rule? name with
      | some rule => Except.ok rule
      | none => .error (LintError.unknownRule name)) = .error problem ↔
      plugin.Lacks name problem := by
  cases found : plugin.rule? name with
  | none =>
      constructor
      · rintro ⟨⟩
        exact .unknownRule (rule?_eq_none_iff.mp found)
      · rintro ⟨unknown⟩
        rfl
  | some rule =>
      refine ⟨fun failed => by simp at failed, ?_⟩
      rintro ⟨unknown⟩
      rw [rule?_eq_none_iff.mpr unknown] at found
      contradiction

end Plugin

namespace Linter

variable {plugin : Plugin} {config : Config} {rules : List Rule} {problem : LintError}

theorem enabledRules_eq_error_iff :
    enabledRules plugin config = .error problem ↔
      FirstRaised plugin.Lacks config.rules problem := by
  by_cases named : config.rules = []
  · simp [enabledRules, named]
  · have notEmpty : ¬ config.rules.isEmpty = true := by simpa using named
    rw [enabledRules, if_neg notEmpty, mapM_eq_error_iff]
    refine iff_of_eq (congrArg (FirstRaised · config.rules problem) ?_)
    funext name other
    exact propext Plugin.lookUp_eq_error_iff

theorem filterMap_rule?_eq {names : List String}
    (related : List.Forall₂ (fun name rule => plugin.rule? name = some rule) names rules) :
    names.filterMap plugin.rule? = rules := by
  induction related with
  | nil => rfl
  | cons isRule _ ih => rw [List.filterMap_cons_some isRule, ih]

theorem eq_enabled_of_enabledRules (found : enabledRules plugin config = .ok rules) :
    rules = plugin.enabled config.rules := by
  by_cases named : config.rules = []
  · simpa [enabledRules, Plugin.enabled, named, eq_comm] using found
  · rw [Plugin.enabled, if_neg named]
    exact (filterMap_rule?_eq ((enabledRules_eq_ok_iff named).mp found)).symm

theorem enabledRules_eq_ok_enabled_iff :
    enabledRules plugin config = .ok (plugin.enabled config.rules) ↔
      ∀ name ∈ config.rules, ∃ rule ∈ plugin.rules, rule.info.name = name := by
  constructor
  · intro found name member
    by_contra unknown
    push Not at unknown
    obtain ⟨problem, raised⟩ :=
      FirstRaised.exists_iff.mpr ⟨name, member, _, Plugin.Lacks.unknownRule unknown⟩
    rw [← enabledRules_eq_error_iff, found] at raised
    contradiction
  · intro known
    cases looked : enabledRules plugin config with
    | error problem =>
        obtain ⟨before, name, after, split, -, ⟨unknown⟩⟩ := enabledRules_eq_error_iff.mp looked
        obtain ⟨rule, ruleMem, isNamed⟩ := known name (by simp [split])
        exact absurd isNamed (unknown rule ruleMem)
    | ok rules => rw [eq_enabled_of_enabledRules looked]

end Linter

/-! ## What listeners ask for -/

/-- What a listener of a rule asks for: the query and the capture that it names. -/
structure Inquiry where
  ruleName : String
  query : String
  captureName : Option String

/-- What the listeners of a rule ask for, in order. -/
def Rule.inquiries (rule : Rule) : List Inquiry :=
  rule.listeners.map fun listener => ⟨rule.info.name, listener.query, listener.captureName⟩

/-- What the listeners of the enabled rules ask for, in the order of the rules. -/
def Plugin.inquiries (plugin : Plugin) (names : List String) : List Inquiry :=
  (plugin.enabled names).flatMap Rule.inquiries

/-- The capture that is listened to: the one that is named, or the only one. -/
inductive ReadQuery.Determines (query : ReadQuery) : Option String → String → Prop where
  | named {capture : String} (isCapture : capture ∈ query.captureNames) :
      Determines query (some capture) capture
  | only {capture : String} (isOnly : query.captureNames = [capture]) :
      Determines query none capture

namespace Inquiry

/-- Why an inquiry is refused.  Whether the capture is known is asked only of a query that
can be read. -/
inductive Refuses (reader : QueryReader) (inquiry : Inquiry) : LintError → Prop where
  | faultyQuery {fault : Query.Fault} (unreadable : reader inquiry.query = .error fault) :
      Refuses reader inquiry (.faultyQuery inquiry.ruleName inquiry.query fault)
  | missingCapture {query : ReadQuery} (read : reader inquiry.query = .ok query)
      (undetermined : ∀ capture, ¬ query.Determines inquiry.captureName capture) :
      Refuses reader inquiry (.missingCapture inquiry.ruleName)

theorem exists_refuses_iff {reader : QueryReader} {inquiry : Inquiry} :
    (∃ problem, Refuses reader inquiry problem) ↔
      (∃ fault, reader inquiry.query = .error fault) ∨
        ∃ query, reader inquiry.query = .ok query ∧
          ∀ capture, ¬ query.Determines inquiry.captureName capture := by
  constructor
  · rintro ⟨problem, unreadable | ⟨read, undetermined⟩⟩
    · exact Or.inl ⟨_, unreadable⟩
    · exact Or.inr ⟨_, read, undetermined⟩
  · rintro (⟨fault, unreadable⟩ | ⟨query, read, undetermined⟩)
    · exact ⟨_, .faultyQuery unreadable⟩
    · exact ⟨_, .missingCapture read undetermined⟩

end Inquiry

namespace Linter

theorem listenedCapture?_eq_some_iff {query : ReadQuery} {captureName : Option String}
    {capture : String} :
    listenedCapture? query captureName = some capture ↔ query.Determines captureName capture := by
  cases captureName with
  | some name =>
      rw [listenedCapture?]
      constructor
      · intro found
        split at found
        next isCapture =>
          cases found
          exact .named (by simpa using isCapture)
        next => contradiction
      · rintro ⟨isCapture⟩
        simp [isCapture]
  | none =>
      rw [listenedCapture?]
      constructor
      · intro found
        split at found
        next isOnly =>
          cases found
          exact .only isOnly
        next => contradiction
      · rintro (_ | isOnly)
        rw [isOnly]

theorem listenedCapture?_eq_none_iff {query : ReadQuery} {captureName : Option String} :
    listenedCapture? query captureName = none ↔
      ∀ capture, ¬ query.Determines captureName capture := by
  simp only [← listenedCapture?_eq_some_iff, Option.eq_none_iff_forall_ne_some, ne_eq]

theorem compileListener_eq_error_iff {reader : QueryReader} {info : RuleInfo} {index : Nat}
    {listener : Listener} {problem : LintError} :
    compileListener reader info index listener = .error problem ↔
      Inquiry.Refuses reader ⟨info.name, listener.query, listener.captureName⟩ problem := by
  unfold compileListener
  cases read : reader listener.query with
  | error fault =>
      constructor
      · rintro ⟨⟩
        exact .faultyQuery read
      · rintro (unreadable | read')
        · rw [Except.error.inj (read.symm.trans unreadable)]
        · simp [read] at read'
  | ok query =>
      cases listened : listenedCapture? query listener.captureName with
      | some capture =>
          refine ⟨fun failed => by simp [listened] at failed, ?_⟩
          rintro (unreadable | ⟨read', undetermined⟩)
          · simp [read] at unreadable
          · cases read.symm.trans read'
            exact absurd (listenedCapture?_eq_some_iff.mp listened) (undetermined capture)
      | none =>
          constructor
          · intro failed
            simp only [listened, Except.error.injEq] at failed
            subst failed
            exact .missingCapture read (listenedCapture?_eq_none_iff.mp listened)
          · rintro (unreadable | read')
            · simp [read] at unreadable
            · simp [listened]

theorem compileFrom_eq_error_iff {reader : QueryReader} {info : RuleInfo} {index : Nat}
    {given : List Listener} {problem : LintError} :
    compileFrom reader info index given = .error problem ↔
      FirstRaised (Inquiry.Refuses reader)
        (given.map fun listener => ⟨info.name, listener.query, listener.captureName⟩) problem := by
  induction given generalizing index with
  | nil => simp [compileFrom]
  | cons listener rest ih =>
      rw [compileFrom, pair_eq_error_iff, List.map_cons, FirstRaised.cons_iff, ih]
      simp only [compileListener_eq_error_iff]

theorem compileAll_eq_error_iff {reader : QueryReader} {rules : List Rule} {problem : LintError} :
    compileAll reader rules = .error problem ↔
      FirstRaised (Inquiry.Refuses reader) (rules.flatMap Rule.inquiries) problem := by
  induction rules with
  | nil => simp [compileAll]
  | cons rule rest ih =>
      have noneRefused : (∀ other, ¬ compileFrom reader rule.info 0 rule.listeners = .error other) ↔
          ∀ inquiry ∈ rule.inquiries, ∀ other, ¬ Inquiry.Refuses reader inquiry other := by
        simp only [compileFrom_eq_error_iff, ← not_exists, FirstRaised.exists_iff]
        simp [Rule.inquiries]
      rw [compileAll, pair_eq_error_iff, noneRefused, ih, compileFrom_eq_error_iff,
        List.flatMap_cons, FirstRaised.append_iff]
      rfl

/-- A run fails at the first name that is no rule, or, if all of them are, at the first
inquiry that is refused. -/
theorem run_eq_error_iff {parse : Source → Node} {reader : QueryReader} {plugin : Plugin}
    {config : Config} {source : Source} {problem : LintError} :
    run parse reader plugin config source = .error problem ↔
      FirstRaised plugin.Lacks config.rules problem ∨
        (∀ name ∈ config.rules, ∃ rule ∈ plugin.rules, rule.info.name = name) ∧
          FirstRaised (Inquiry.Refuses reader) (plugin.inquiries config.rules) problem := by
  have compiles (rules : List Rule) :
      (do let listeners ← compileAll reader rules
          pure (runListeners parse listeners config.fix source)) = Except.error problem ↔
        compileAll reader rules = .error problem := by
    cases compileAll reader rules <;> simp [bind, Except.bind, pure, Except.pure]
  rw [run, bind_eq_error_iff, enabledRules_eq_error_iff]
  simp only [compiles]
  refine or_congr_right ?_
  rw [← enabledRules_eq_ok_enabled_iff]
  constructor
  · rintro ⟨rules, found, refused⟩
    obtain rfl := eq_enabled_of_enabledRules found
    exact ⟨found, compileAll_eq_error_iff.mp refused⟩
  · rintro ⟨found, refused⟩
    exact ⟨_, found, compileAll_eq_error_iff.mpr refused⟩

theorem exists_run_eq_error_iff {parse : Source → Node} {reader : QueryReader} {plugin : Plugin}
    {config : Config} {source : Source} :
    (∃ problem, run parse reader plugin config source = .error problem) ↔
      (∃ name ∈ config.rules, ∃ problem, plugin.Lacks name problem) ∨
        ∃ inquiry ∈ plugin.inquiries config.rules, ∃ problem, inquiry.Refuses reader problem := by
  simp only [run_eq_error_iff, ← FirstRaised.exists_iff]
  constructor
  · rintro ⟨problem, raised | ⟨-, raised⟩⟩
    · exact Or.inl ⟨problem, raised⟩
    · exact Or.inr ⟨problem, raised⟩
  · intro raised
    -- If a listener is refused, a name before it may still be unknown.
    by_cases lacking : ∃ problem, FirstRaised plugin.Lacks config.rules problem
    · obtain ⟨problem, raised⟩ := lacking
      exact ⟨problem, Or.inl raised⟩
    · obtain ⟨problem, refused⟩ := raised.resolve_left lacking
      refine ⟨problem, Or.inr ⟨?_, refused⟩⟩
      simpa [FirstRaised.exists_iff, Plugin.exists_lacks_iff] using lacking

end Linter

/-! ## Other callbacks -/

/-- A rule with other callbacks. -/
def Rule.answering (rule : Rule) (answer : RuleInfo → Listener → File → Cursor → List Report) :
    Rule :=
  { rule with
    listeners := rule.listeners.map fun listener =>
      { listener with respond := answer rule.info listener } }

@[simp]
theorem Rule.inquiries_answering (rule : Rule)
    (answer : RuleInfo → Listener → File → Cursor → List Report) :
    (rule.answering answer).inquiries = rule.inquiries := by
  simp [inquiries, answering]

namespace Plugin

/-- A plugin whose rules have other callbacks. -/
def answering (plugin : Plugin) (answer : RuleInfo → Listener → File → Cursor → List Report) :
    Plugin :=
  { plugin with rules := plugin.rules.map (·.answering answer) }

variable (plugin : Plugin) (answer : RuleInfo → Listener → File → Cursor → List Report)

theorem rule?_answering (name : String) :
    (plugin.answering answer).rule? name = (plugin.rule? name).map (·.answering answer) := by
  rw [rule?, answering, List.find?_map]
  rfl

theorem enabled_answering (names : List String) :
    (plugin.answering answer).enabled names =
      (plugin.enabled names).map (·.answering answer) := by
  unfold enabled
  split
  next => rfl
  next =>
    rw [List.map_filterMap]
    exact List.filterMap_congr fun name _ => rule?_answering plugin answer name

@[simp]
theorem inquiries_answering (names : List String) :
    (plugin.answering answer).inquiries names = plugin.inquiries names := by
  rw [inquiries, inquiries, enabled_answering, List.flatMap_map]
  simp only [Rule.inquiries_answering]

@[simp]
theorem lacks_answering : (plugin.answering answer).Lacks = plugin.Lacks := by
  funext name problem
  apply propext
  constructor
  · rintro ⟨unknown⟩
    exact .unknownRule fun rule ruleMem => unknown (rule.answering answer)
      (List.mem_map_of_mem ruleMem)
  · rintro ⟨unknown⟩
    refine .unknownRule fun rule ruleMem => ?_
    obtain ⟨original, originalMem, rfl⟩ := List.mem_map.mp ruleMem
    exact unknown original originalMem

end Plugin

namespace Linter

/-- A run fails if and only if a name is no rule or a listener of an enabled rule is
refused.  The problem is the first of its sort, names before listeners.  It is the same
for every source, with and without fixing, and for all callbacks; and a run that fails
has made no call. -/
theorem run_refused_by_first_problem (parse : Source → Node) (reader : QueryReader)
    (plugin : Plugin) (config : Config) (source : Source) :
    ((∃ problem, run parse reader plugin config source = .error problem) ↔
      (∃ name ∈ config.rules, ∀ rule ∈ plugin.rules, rule.info.name ≠ name) ∨
        ∃ rule ∈ plugin.enabled config.rules, ∃ listener ∈ rule.listeners,
          (∃ fault, reader listener.query = .error fault) ∨
            ∃ query, reader listener.query = .ok query ∧
              ∀ capture, ¬ query.Determines listener.captureName capture) ∧
    (∀ problem, run parse reader plugin config source = .error problem ↔
      FirstRaised plugin.Lacks config.rules problem ∨
        (∀ name ∈ config.rules, ∃ rule ∈ plugin.rules, rule.info.name = name) ∧
          FirstRaised (Inquiry.Refuses reader) (plugin.inquiries config.rules) problem) ∧
    (∀ (parse' : Source → Node) (source' : Source) (fix : Bool)
      (answer : RuleInfo → Listener → File → Cursor → List Report) (problem : LintError),
      run parse' reader (plugin.answering answer) ⟨config.rules, fix⟩ source' = .error problem ↔
        run parse reader plugin config source = .error problem) ∧
    (recordedRun parse reader plugin config source).1 = run parse reader plugin config source ∧
    ∀ problem, run parse reader plugin config source = .error problem →
      (recordedRun parse reader plugin config source).2 = [] := by
  refine ⟨?_, fun problem => run_eq_error_iff, ?_, ?_⟩
  · rw [exists_run_eq_error_iff]
    simp only [Plugin.exists_lacks_iff, Inquiry.exists_refuses_iff, Plugin.inquiries,
      Rule.inquiries, List.mem_flatMap, List.mem_map]
    refine or_congr_right ⟨?_, ?_⟩
    · rintro ⟨_, ⟨rule, enabled, listener, listens, rfl⟩, refused⟩
      exact ⟨rule, enabled, listener, listens, refused⟩
    · rintro ⟨rule, enabled, listener, listens, refused⟩
      exact ⟨_, ⟨rule, enabled, listener, listens, rfl⟩, refused⟩
  · intro parse' source' fix answer problem
    rw [run_eq_error_iff, run_eq_error_iff, Plugin.lacks_answering, Plugin.inquiries_answering]
    simp [Plugin.answering, Rule.answering]
  · rw [recordedRun_eq]
    refine ⟨rfl, fun problem failed => ?_⟩
    rw [failed, callsOf]

-- The unknown name is reported although the query of the rule before it cannot be read.
example (parse : Source → Node) (reader : QueryReader) (source : Source) (info : RuleInfo) :
    run parse reader ⟨"sample", [⟨{ info with name := "faulty" }, [⟨"(", none, fun _ _ => []⟩]⟩]⟩
      ⟨["faulty", "absent"], true⟩ source = .error (.unknownRule "absent") := by
  rfl

end Linter

end AssertLint
