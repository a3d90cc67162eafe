import AssertLint.Tree.Chain
import Mathlib.Computability.StateTransition

/-!
# Chains that come to an end

A chain whose every step goes down in some measure comes to an end, and a bound
that is no smaller than the measure at the start of the chain reaches it.
-/

namespace AssertLint

open StateTransition

section Chain

variable {α : Type} {successor? : α → Option α}

theorem mem_eval_self {start : α} (isEnd : successor? start = none) :
    start ∈ eval successor? start :=
  mem_eval.mpr ⟨Relation.ReflTransGen.refl, isEnd⟩

theorem eval_eq_of_step {start following : α} (step : successor? start = some following) :
    eval successor? start = eval successor? following :=
  reaches_eval (Relation.ReflTransGen.single step)

/-- With a bound that is large enough, the search finds the end of the chain. -/
theorem chainEnd_mem_eval (holds : α → Prop) (measure : α → Nat)
    (goesDown : ∀ start following, holds start → successor? start = some following →
      holds following ∧ measure following < measure start)
    {bound : Nat} {start : α} (startHolds : holds start) (enough : measure start ≤ bound) :
    chainEnd successor? bound start ∈ eval successor? start := by
  induction bound generalizing start with
  | zero =>
      cases step : successor? start with
      | none => exact mem_eval_self step
      | some following =>
          have lower := (goesDown start following startHolds step).2
          omega
  | succ bound ih =>
      rw [chainEnd]
      cases step : successor? start with
      | none => exact mem_eval_self step
      | some following =>
          obtain ⟨followingHolds, lower⟩ := goesDown start following startHolds step
          rw [eval_eq_of_step step]
          exact ih followingHolds (by omega)

end Chain

end AssertLint
