import AssertLint.Linter
import AssertLint.Rule.Described
import Mathlib.Data.List.Forall2
import Mathlib.Data.List.Nodup
import Mathlib.Data.List.Perm.Basic

/-!
# Enabled rules and their listeners

A run first looks up the rules that are to be enabled and compiles their
listeners.  Both succeed when they succeed for each rule by itself, and the
listeners of a rule keep together.
-/

namespace AssertLint

namespace Linter

theorem bind_eq_ok_iff {ε α β : Type} {first : Except ε α} {following : α → Except ε β}
    {result : β} :
    (first >>= following) = .ok result ↔
      ∃ value, first = .ok value ∧ following value = .ok result := by
  cases first with
  | error problem => simp [bind, Except.bind]
  | ok value => simp [bind, Except.bind]

theorem pure_eq_ok_iff {ε α : Type} {value result : α} :
    (pure value : Except ε α) = .ok result ↔ value = result := by
  simp [pure, Except.pure]

theorem mapM_eq_ok_iff {ε α β : Type} {action : α → Except ε β} {values : List α}
    {results : List β} :
    values.mapM action = .ok results ↔
      List.Forall₂ (fun value result => action value = .ok result) values results := by
  induction values generalizing results with
  | nil => cases results <;> simp [pure, Except.pure]
  | cons value rest ih =>
      simp only [List.mapM_cons, bind_eq_ok_iff, pure_eq_ok_iff, ih,
        List.forall₂_cons_left_iff]
      constructor
      · rintro ⟨first, isFirst, others, areOthers, rfl⟩
        exact ⟨first, others, isFirst, areOthers, rfl⟩
      · rintro ⟨first, others, isFirst, areOthers, rfl⟩
        exact ⟨first, isFirst, others, areOthers, rfl⟩

/-! ## Enabled rules -/

section Enabled

variable {plugin : Plugin} {config : Config} {rules : List Rule}

theorem enabledRules_eq_ok_iff (named : config.rules ≠ []) :
    enabledRules plugin config = .ok rules ↔
      List.Forall₂ (fun name rule => plugin.rule? name = some rule) config.rules rules := by
  have notEmpty : ¬ config.rules.isEmpty = true := by simpa using named
  rw [enabledRules, if_neg notEmpty, mapM_eq_ok_iff]
  constructor
  · apply List.Forall₂.imp
    intro name rule found
    split at found
    next known => rw [known, Except.ok.inj found]
    next => simp at found
  · apply List.Forall₂.imp
    intro name rule known
    simp [known]

theorem name_eq_of_rule? {name : String} {rule : Rule}
    (found : plugin.rule? name = some rule) : rule.info.name = name := by
  simpa using List.find?_some found

/-- The name of an enabled rule finds that rule. -/
theorem rule?_name_of_mem (enabled : enabledRules plugin config = .ok rules)
    (distinct : (rules.map (·.info.name)).Nodup) {rule : Rule} (member : rule ∈ rules) :
    plugin.rule? rule.info.name = some rule := by
  by_cases named : config.rules = []
  · have isAll : rules = plugin.rules := by
      rw [enabledRules, if_pos (by simp [named])] at enabled
      exact (Except.ok.inj enabled).symm
    subst isAll
    obtain ⟨found, foundEq⟩ : ∃ found, plugin.rule? rule.info.name = some found := by
      rw [← Option.isSome_iff_exists, Plugin.rule?, List.find?_isSome]
      exact ⟨rule, member, by simp⟩
    have foundMem : found ∈ plugin.rules := List.mem_of_find?_eq_some foundEq
    rw [foundEq, List.inj_on_of_nodup_map distinct foundMem member (name_eq_of_rule? foundEq)]
  · have related := (enabledRules_eq_ok_iff named).mp enabled
    obtain ⟨index, bound, rfl⟩ := List.mem_iff_getElem.mp member
    have nameBound : index < config.rules.length := by
      rw [related.length_eq]
      exact bound
    have found : plugin.rule? config.rules[index] = some rules[index] :=
      related.get nameBound bound
    rw [name_eq_of_rule? found, found]

theorem enabledRules_singleton {name : String} {rule : Rule}
    (found : plugin.rule? name = some rule) (fix : Bool) :
    enabledRules plugin ⟨[name], fix⟩ = .ok [rule] :=
  (enabledRules_eq_ok_iff (by simp)).mpr (List.Forall₂.cons found List.Forall₂.nil)

/-- Naming the rules in another order enables the same rules. -/
theorem exists_enabledRules_of_perm (enabled : enabledRules plugin config = .ok rules)
    {names : List String} (permuted : names.Perm config.rules) :
    ∃ rules', enabledRules plugin ⟨names, config.fix⟩ = .ok rules' ∧ rules'.Perm rules := by
  by_cases named : config.rules = []
  · have namesNil : names = [] := by
      rw [named] at permuted
      exact permuted.eq_nil
    refine ⟨rules, ?_, List.Perm.refl rules⟩
    rw [← enabled, enabledRules, enabledRules, namesNil, named]
  · have namesNamed : names ≠ [] := fun namesNil => named (by simpa [namesNil] using permuted)
    obtain ⟨rules', related, permuted'⟩ :=
      List.perm_comp_forall₂ permuted ((enabledRules_eq_ok_iff named).mp enabled)
    exact ⟨rules', (enabledRules_eq_ok_iff namesNamed).mpr related, permuted'⟩

end Enabled

/-! ## Compiled listeners -/

section Compiled

variable {reader : QueryReader} {rules : List Rule} {listeners : List CompiledListener}

theorem compileAll_cons_eq_ok_iff {rule : Rule} :
    compileAll reader (rule :: rules) = .ok listeners ↔
      ∃ own others, compileFrom reader rule.info 0 rule.listeners = .ok own ∧
        compileAll reader rules = .ok others ∧ listeners = own ++ others := by
  simp only [compileAll, bind_eq_ok_iff, pure_eq_ok_iff]
  constructor
  · rintro ⟨own, isOwn, others, areOthers, rfl⟩
    exact ⟨own, others, isOwn, areOthers, rfl⟩
  · rintro ⟨own, others, isOwn, areOthers, rfl⟩
    exact ⟨own, isOwn, others, areOthers, rfl⟩

theorem compileAll_singleton_eq {rule : Rule} {own : List CompiledListener}
    (isOwn : compileFrom reader rule.info 0 rule.listeners = .ok own) :
    compileAll reader [rule] = .ok own :=
  compileAll_cons_eq_ok_iff.mpr ⟨own, [], isOwn, rfl, (List.append_nil own).symm⟩

/-- Rules compile together when each of them compiles. -/
theorem exists_compileAll_iff :
    (∃ listeners, compileAll reader rules = .ok listeners) ↔
      ∀ rule ∈ rules, ∃ own, compileFrom reader rule.info 0 rule.listeners = .ok own := by
  induction rules with
  | nil => simp [compileAll]
  | cons rule rest ih =>
      rw [List.forall_mem_cons, ← ih]
      simp only [compileAll_cons_eq_ok_iff]
      constructor
      · rintro ⟨listeners, own, others, isOwn, areOthers, -⟩
        exact ⟨⟨own, isOwn⟩, others, areOthers⟩
      · rintro ⟨⟨own, isOwn⟩, others, areOthers⟩
        exact ⟨own ++ others, own, others, isOwn, areOthers, rfl⟩

theorem compileAll_append_eq_ok {before after : List Rule}
    (compiled : compileAll reader (before ++ after) = .ok listeners) :
    ∃ first second, compileAll reader before = .ok first ∧ compileAll reader after = .ok second ∧
      listeners = first ++ second := by
  induction before generalizing listeners with
  | nil => exact ⟨[], listeners, rfl, compiled, rfl⟩
  | cons rule rest ih =>
      obtain ⟨own, others, isOwn, areOthers, rfl⟩ := compileAll_cons_eq_ok_iff.mp compiled
      obtain ⟨first, second, isFirst, isSecond, rfl⟩ := ih areOthers
      refine ⟨own ++ first, second, ?_, isSecond, (List.append_assoc own first second).symm⟩
      exact compileAll_cons_eq_ok_iff.mpr ⟨own, first, isOwn, isFirst, rfl⟩

/-- A compiled listener has the description of its rule and a query that was read. -/
theorem of_mem_compileFrom {info : RuleInfo} {index : Nat} {given : List Listener}
    (compiled : compileFrom reader info index given = .ok listeners) :
    ∀ listener ∈ listeners,
      listener.info = info ∧ ∃ text, reader text = .ok listener.query := by
  induction given generalizing index listeners with
  | nil =>
      obtain rfl : [] = listeners := by simpa [compileFrom] using compiled
      simp
  | cons first rest ih =>
      simp only [compileFrom, bind_eq_ok_iff, pure_eq_ok_iff] at compiled
      obtain ⟨own, isOwn, others, areOthers, rfl⟩ := compiled
      rw [List.forall_mem_cons]
      refine ⟨?_, ih areOthers⟩
      unfold compileListener at isOwn
      split at isOwn
      next => simp at isOwn
      next query read =>
        split at isOwn
        next =>
          obtain rfl := Except.ok.inj isOwn
          exact ⟨rfl, first.query, read⟩
        next => simp at isOwn

theorem of_mem_compileAll (compiled : compileAll reader rules = .ok listeners)
    {listener : CompiledListener} (member : listener ∈ listeners) :
    (∃ rule ∈ rules, listener.info = rule.info) ∧ ∃ text, reader text = .ok listener.query := by
  induction rules generalizing listeners with
  | nil =>
      obtain rfl : [] = listeners := by simpa [compileAll] using compiled
      simp at member
  | cons rule rest ih =>
      obtain ⟨own, others, isOwn, areOthers, rfl⟩ := compileAll_cons_eq_ok_iff.mp compiled
      rcases List.mem_append.mp member with inOwn | inOthers
      · obtain ⟨infoEq, read⟩ := of_mem_compileFrom isOwn listener inOwn
        exact ⟨⟨rule, List.mem_cons_self, infoEq⟩, read⟩
      · obtain ⟨⟨other, otherMem, infoEq⟩, read⟩ := ih areOthers inOthers
        exact ⟨⟨other, List.mem_cons_of_mem rule otherMem, infoEq⟩, read⟩

/-- The listeners of a rule follow each other, behind those of the rules before it
and in front of those of the rules after it. -/
theorem exists_parts_of_mem (compiled : compileAll reader rules = .ok listeners)
    (distinct : (rules.map (·.info.name)).Nodup) {rule : Rule} (member : rule ∈ rules) :
    ∃ before own after, listeners = before ++ (own ++ after) ∧
      compileFrom reader rule.info 0 rule.listeners = .ok own ∧
      (∀ listener ∈ before, listener.info.name ≠ rule.info.name) ∧
      ∀ listener ∈ after, listener.info.name ≠ rule.info.name := by
  obtain ⟨earlier, later, rfl⟩ := List.append_of_mem member
  obtain ⟨before, rest, isBefore, isRest, rfl⟩ := compileAll_append_eq_ok compiled
  obtain ⟨own, after, isOwn, isAfter, rfl⟩ := compileAll_cons_eq_ok_iff.mp isRest
  rw [List.map_append, List.map_cons, List.nodup_middle, List.nodup_cons,
    List.mem_append] at distinct
  refine ⟨before, own, after, rfl, isOwn, ?_, ?_⟩
  · intro listener listenerMem same
    obtain ⟨⟨other, otherMem, infoEq⟩, -⟩ := of_mem_compileAll isBefore listenerMem
    exact distinct.1 (Or.inl (List.mem_map.mpr ⟨other, otherMem, by rw [← infoEq, same]⟩))
  · intro listener listenerMem same
    obtain ⟨⟨other, otherMem, infoEq⟩, -⟩ := of_mem_compileAll isAfter listenerMem
    exact distinct.1 (Or.inr (List.mem_map.mpr ⟨other, otherMem, by rw [← infoEq, same]⟩))

end Compiled

/-! ## Sample rules -/

/-- A rule that inserts a text next to every identifier. -/
def sampleRule (name : String) (anchor : Described.Anchor) (text : String) : Rule :=
  { info := ⟨name, "", "", true, []⟩
    listeners :=
      [Described.listener "(identifier) @name" none
        [⟨"found", [], some [⟨anchor, 0, 0, text⟩]⟩]] }

/-- A plugin with a rule that writes behind identifiers and one that writes in
front of them. -/
def samplePlugin : Plugin :=
  ⟨"sample", [sampleRule "append" .nodeEnd "a", sampleRule "prepend" .nodeStart "b"]⟩

/-- A parser that takes every source for an identifier. -/
def sampleParse (source : Source) : Node :=
  .ofChildren .program 0 source.byteLength [.leaf .identifier 0 source.byteLength]

/-- The query of the sample rules as data. -/
def sampleQuery : Query :=
  ⟨[(some (.node (some .identifier) none [] ["name"] 0), [])], ["name"]⟩

/-- The listener of a sample rule, with its query read. -/
def sampleListener (name : String) (anchor : Described.Anchor) (text : String) :
    CompiledListener :=
  { info := ⟨name, "", "", true, []⟩
    index := 0
    respond := fun file node =>
      [Described.ReportPlan.report ⟨"found", [], some [⟨anchor, 0, 0, text⟩]⟩ file node]
    query := sampleQuery.asRead
    capture := "name" }

theorem reader_sampleQuery : Query.reader "(identifier) @name" = .ok sampleQuery.asRead := by
  have compiled : Query.compile "(identifier) @name" = .ok sampleQuery := by decide +kernel
  rw [Query.reader, compiled]
  rfl

theorem compileFrom_sampleRule (name : String) (anchor : Described.Anchor) (text : String) :
    compileFrom Query.reader (sampleRule name anchor text).info 0
        (sampleRule name anchor text).listeners =
      .ok [sampleListener name anchor text] := by
  simp [sampleRule, Described.listener, compileFrom, compileListener, reader_sampleQuery,
    listenedCapture?, Query.asRead, sampleQuery, sampleListener, bind, Except.bind, pure,
    Except.pure]

end Linter

end AssertLint
