import AssertLint.Text.Source

/-!
# Ranges inside and outside of each other

Two ranges of a source may overlap in any way, but the ranges that come from a tree
only do so when one lies inside of the other.
-/

namespace AssertLint

namespace Span

/-- A range lies in another one. -/
def Within (inner outer : Span) : Prop :=
  outer.start ≤ inner.start ∧ inner.stop ≤ outer.stop

instance (inner outer : Span) : Decidable (inner.Within outer) :=
  inferInstanceAs (Decidable (_ ∧ _))

/-- A range lies in another one and leaves some of it uncovered. -/
def StrictlyWithin (inner outer : Span) : Prop :=
  inner.Within outer ∧ inner ≠ outer

instance (inner outer : Span) : Decidable (inner.StrictlyWithin outer) :=
  inferInstanceAs (Decidable (_ ∧ _))

/-- One of two ranges ends before the other one starts. -/
def Apart (first second : Span) : Prop :=
  first.stop ≤ second.start ∨ second.stop ≤ first.start

/-- Each of two ranges starts before the other one ends. -/
def Overlaps (first second : Span) : Prop :=
  first.start < second.stop ∧ second.start < first.stop

instance (first second : Span) : Decidable (first.Overlaps second) :=
  inferInstanceAs (Decidable (_ ∧ _))

/-- Two ranges that start at different places, and of which one strictly contains the
other unless they are apart. -/
structure Nested (first second : Span) : Prop where
  start_ne : first.start ≠ second.start
  related : first.Apart second ∨ first.StrictlyWithin second ∨ second.StrictlyWithin first

theorem Within.refl (span : Span) : span.Within span :=
  ⟨Nat.le_refl _, Nat.le_refl _⟩

theorem Within.trans {inner middle outer : Span} (first : inner.Within middle)
    (second : middle.Within outer) : inner.Within outer :=
  ⟨Nat.le_trans second.1 first.1, Nat.le_trans first.2 second.2⟩

theorem Apart.symm {first second : Span} (apart : first.Apart second) : second.Apart first :=
  Or.comm.mp apart

theorem Apart.of_within {first second inner : Span} (apart : first.Apart second)
    (inside : inner.Within first) : inner.Apart second := by
  unfold Apart Within at *
  omega

theorem Overlaps.symm {first second : Span} (overlap : first.Overlaps second) :
    second.Overlaps first :=
  And.comm.mp overlap

theorem Nested.symm {first second : Span} (nested : first.Nested second) :
    second.Nested first where
  start_ne := nested.start_ne.symm
  related := by
    rcases nested.related with apart | inside | around
    · exact Or.inl apart.symm
    · exact Or.inr (Or.inr inside)
    · exact Or.inr (Or.inl around)

instance {α : Type} (range : α → Span) :
    Std.Symm fun first second => (range first).Apart (range second) :=
  ⟨fun _ _ apart => apart.symm⟩

instance {α : Type} (range : α → Span) :
    Std.Symm fun first second => (range first).Nested (range second) :=
  ⟨fun _ _ nested => nested.symm⟩

/-- Of two nested ranges, the one that starts inside of the other lies in it. -/
theorem Nested.within_of_start {inner outer : Span} (nested : inner.Nested outer)
    (startLe : outer.start ≤ inner.start) (startLt : inner.start < outer.stop)
    (innerOrdered : inner.start ≤ inner.stop) : inner.Within outer := by
  have startNe := nested.start_ne
  rcases nested.related with apart | inside | around
  · unfold Apart at apart
    omega
  · exact inside.1
  · have := around.1.1
    omega

end Span

end AssertLint
