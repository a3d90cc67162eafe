import AssertLint.Proofs.Value.Origin

/-!
# The chain that leads to an origin

Going back from an expression to where its value is taken from, again and again,
makes a chain.  It may run in a circle through the initializers of several names.
The search for an origin stops where the chain ends, or else at the first name
that the chain meets for the second time.  From such a name the chain runs once
around the circle and comes back to it, so the origin of an origin is itself.
-/

namespace AssertLint

open StateTransition

namespace ScopeTable

section Chain

variable {table : ScopeTable} {start middle last other : Cursor} {steps steps' : Nat}

/-- The expression that a number of steps back along the chain lead to. -/
def sourceAfter? (table : ScopeTable) (start : Cursor) : Nat → Option Cursor
  | 0 => some start
  | steps + 1 => (table.sourceAfter? start steps).bind table.source?

theorem sourceAfter?_add (found : table.sourceAfter? start steps = some middle) (later : Nat) :
    table.sourceAfter? start (steps + later) = table.sourceAfter? middle later := by
  induction later with
  | zero => exact found
  | succ later ih => rw [← Nat.add_assoc, sourceAfter?, ih, sourceAfter?]

theorem sourceAfter?_succ (found : table.source? start = some middle) (later : Nat) :
    table.sourceAfter? start (later + 1) = table.sourceAfter? middle later := by
  have oneStep : table.sourceAfter? start 1 = some middle := found
  rw [Nat.add_comm]
  exact sourceAfter?_add oneStep later

/-- The chain can stop after a number of steps: it leads no further, or it has come to
a name that it has met before. -/
structure StopsAt (table : ScopeTable) (start : Cursor) (steps : Nat) (last : Cursor) : Prop where
  reached : table.sourceAfter? start steps = some last
  isStop : table.source? last = none ∨
    last.kind = .identifier ∧ ∃ earlier < steps, table.sourceAfter? start earlier = some last

/-- The first place where the chain can stop. -/
structure StopsFirstAt (table : ScopeTable) (start : Cursor) (steps : Nat) (last : Cursor) :
    Prop extends table.StopsAt start steps last where
  isFirst : ∀ earlier < steps, ∀ cursor, ¬ table.StopsAt start earlier cursor

theorem StopsFirstAt.unique (first : table.StopsFirstAt start steps last)
    (second : table.StopsFirstAt start steps' other) : last = other := by
  rcases Nat.lt_trichotomy steps steps' with before | same | behind
  · exact absurd first.toStopsAt (second.isFirst steps before last)
  · subst same
    exact Option.some.inj (first.reached.symm.trans second.reached)
  · exact absurd second.toStopsAt (first.isFirst steps' behind other)

/-- A chain that stops at a name which it has met before stops there again when it is
started at the name. -/
theorem StopsFirstAt.around (stops : table.StopsFirstAt start steps last) {earlier : Nat}
    (before : earlier < steps) (met : table.sourceAfter? start earlier = some last)
    (isName : last.kind = .identifier) : table.StopsFirstAt last (steps - earlier) last := by
  obtain ⟨round, rfl⟩ := Nat.exists_eq_add_of_lt before
  have roundEq : earlier + round + 1 - earlier = round + 1 := by omega
  have shift (later : Nat) : table.sourceAfter? last later =
      table.sourceAfter? start (earlier + later) := (sourceAfter?_add met later).symm
  rw [roundEq]
  constructor
  · refine ⟨?_, Or.inr ⟨isName, 0, Nat.succ_pos round, rfl⟩⟩
    rw [shift]
    exact stops.reached
  · -- A stop on the way around would be one of the whole chain as well.
    intro later isLater cursor stopsLater
    apply stops.isFirst (earlier + later) (by omega) cursor
    refine ⟨by rw [← shift, stopsLater.reached], ?_⟩
    apply stopsLater.isStop.imp_right
    rintro ⟨cursorIsName, inner, isInner, innerMet⟩
    exact ⟨cursorIsName, earlier + inner, by omega, by rw [← shift, innerMet]⟩

/-- One more step in front of a chain does not move its first stop, unless that step
starts at a name to which the chain comes back. -/
theorem StopsFirstAt.cons (stops : table.StopsFirstAt middle steps last)
    (found : table.source? start = some middle)
    (noReturn : start.kind = .identifier →
      ∀ later, table.sourceAfter? middle later ≠ some start) :
    table.StopsFirstAt start (steps + 1) last := by
  have shift := sourceAfter?_succ found
  constructor
  · refine ⟨by rw [shift, stops.reached], ?_⟩
    apply stops.isStop.imp_right
    rintro ⟨isName, earlier, before, met⟩
    exact ⟨isName, earlier + 1, by omega, by rw [shift, met]⟩
  · intro earlier before cursor stopsEarlier
    cases earlier with
    | zero =>
        obtain rfl := Option.some.inj stopsEarlier.reached
        rcases stopsEarlier.isStop with ends | ⟨-, inner, isInner, -⟩
        · simp [found] at ends
        · omega
    | succ earlier =>
        have reached := stopsEarlier.reached
        rw [shift] at reached
        apply stops.isFirst earlier (by omega) cursor
        refine ⟨reached, stopsEarlier.isStop.imp_right ?_⟩
        rintro ⟨isName, inner, isInner, met⟩
        cases inner with
        | zero =>
            obtain rfl := Option.some.inj met
            exact absurd reached (noReturn isName earlier)
        | succ inner => exact ⟨isName, inner, by omega, by rw [← shift, met]⟩

end Chain

/-! ## The search goes along the chain -/

section Search

variable {source : Source} {tree : Node} {start cursor : Cursor} {steps : Nat}

theorem liesIn_source? {next : Cursor} (lies : Cursor.LiesIn tree cursor)
    (found : (ofTree source tree).source? cursor = some next) : Cursor.LiesIn tree next := by
  by_cases isName : cursor.kind = .identifier
  · simp only [source?, isName] at found
    exact liesIn_initializer? found
  · exact lies.of_mem_children (mem_children_of_source? isName found)

theorem liesIn_sourceAfter? (lies : Cursor.LiesIn tree start)
    (found : (ofTree source tree).sourceAfter? start steps = some cursor) :
    Cursor.LiesIn tree cursor := by
  induction steps generalizing cursor with
  | zero =>
      obtain rfl := Option.some.inj found
      exact lies
  | succ steps ih =>
      obtain ⟨middle, middleFound, step⟩ := Option.bind_eq_some_iff.mp found
      exact liesIn_source? (ih middleFound) step

/-- A place in a search after a number of steps: the expression is that of the chain,
the names followed are those that the chain has met, and it has not stopped. -/
structure Trail.IsAfter (table : ScopeTable) (start : Cursor) (steps : Nat) (trail : Trail) :
    Prop where
  reached : table.sourceAfter? start steps = some trail.cursor
  followed : ∀ address, address ∈ trail.followed ↔
    ∃ earlier < steps, ∃ name, table.sourceAfter? start earlier = some name ∧
      name.kind = .identifier ∧ name.address = address
  goesOn : ∀ earlier < steps, ∀ cursor, ¬ table.StopsAt start earlier cursor

variable {trail following : Trail}

theorem Trail.IsAfter.mem_followed_iff (lies : Cursor.LiesIn tree start)
    (isAfter : trail.IsAfter (ofTree source tree) start steps)
    (isName : trail.cursor.kind = .identifier) :
    trail.cursor.address ∈ trail.followed ↔
      ∃ earlier < steps, (ofTree source tree).sourceAfter? start earlier = some trail.cursor := by
  rw [isAfter.followed]
  constructor
  · rintro ⟨earlier, before, name, met, -, sameAddress⟩
    have same := (liesIn_sourceAfter? lies met).eq_of_address_eq
      (liesIn_sourceAfter? lies isAfter.reached) sameAddress
    exact ⟨earlier, before, same ▸ met⟩
  · rintro ⟨earlier, before, met⟩
    exact ⟨earlier, before, trail.cursor, met, isName, rfl⟩

/-- The search stops where the chain can stop. -/
theorem Trail.IsAfter.follow?_eq_none_iff (lies : Cursor.LiesIn tree start)
    (isAfter : trail.IsAfter (ofTree source tree) start steps) :
    (ofTree source tree).follow? trail = none ↔
      (ofTree source tree).StopsAt start steps trail.cursor := by
  have stopsIff : (ofTree source tree).StopsAt start steps trail.cursor ↔
      (ofTree source tree).source? trail.cursor = none ∨
        trail.cursor.kind = .identifier ∧ trail.cursor.address ∈ trail.followed := by
    constructor
    · intro stops
      apply stops.isStop.imp_right
      rintro ⟨isName, met⟩
      exact ⟨isName, (isAfter.mem_followed_iff lies isName).mpr met⟩
    · intro isStop
      refine ⟨isAfter.reached, isStop.imp_right ?_⟩
      rintro ⟨isName, isFollowed⟩
      exact ⟨isName, (isAfter.mem_followed_iff lies isName).mp isFollowed⟩
  rw [stopsIff, follow?]
  by_cases isName : trail.cursor.kind = .identifier
  · by_cases isFollowed : trail.cursor.address ∈ trail.followed <;> simp [isName, isFollowed]
  · simp [isName]

/-- One step of the search is one step of the chain. -/
theorem Trail.IsAfter.step (lies : Cursor.LiesIn tree start)
    (isAfter : trail.IsAfter (ofTree source tree) start steps)
    (found : (ofTree source tree).follow? trail = some following) :
    following.IsAfter (ofTree source tree) start (steps + 1) := by
  have goesOn : ¬ (ofTree source tree).StopsAt start steps trail.cursor := by
    rw [← isAfter.follow?_eq_none_iff lies, found]
    simp
  have taken : (ofTree source tree).source? trail.cursor = some following.cursor ∧
      following.followed =
        if trail.cursor.kind = .identifier then trail.cursor.address :: trail.followed
        else trail.followed := by
    unfold follow? at found
    split at found
    next isName =>
      split at found
      · simp at found
      · obtain ⟨next, nextFound, rfl⟩ := Option.map_eq_some_iff.mp found
        exact ⟨nextFound, (if_pos isName).symm⟩
    next isOther =>
      obtain ⟨next, nextFound, rfl⟩ := Option.map_eq_some_iff.mp found
      exact ⟨nextFound, (if_neg isOther).symm⟩
  obtain ⟨nextFound, followedEq⟩ := taken
  constructor
  case reached => rw [sourceAfter?, isAfter.reached, Option.bind_some, nextFound]
  case followed =>
    intro address
    have split : (∃ earlier < steps + 1, ∃ name,
        (ofTree source tree).sourceAfter? start earlier = some name ∧
          name.kind = .identifier ∧ name.address = address) ↔
        address ∈ trail.followed ∨
          trail.cursor.kind = .identifier ∧ trail.cursor.address = address := by
      rw [isAfter.followed, Nat.exists_lt_succ_right, isAfter.reached]
      simp
    rw [split, followedEq]
    by_cases isName : trail.cursor.kind = .identifier
    · simp [isName, or_comm, eq_comm]
    · simp [isName]
  case goesOn =>
    intro earlier before other stops
    rcases Nat.lt_succ_iff_lt_or_eq.mp before with isEarlier | rfl
    · exact isAfter.goesOn earlier isEarlier other stops
    · obtain rfl := Option.some.inj (stops.reached.symm.trans isAfter.reached)
      exact goesOn stops

theorem exists_isAfter_of_reaches (lies : Cursor.LiesIn tree start)
    (leads : Reaches (ofTree source tree).follow? ⟨start, []⟩ trail) :
    ∃ steps, trail.IsAfter (ofTree source tree) start steps := by
  induction leads with
  | refl => exact ⟨0, rfl, by simp, by simp⟩
  | tail _ found ih =>
      obtain ⟨steps, isAfter⟩ := ih
      exact ⟨steps + 1, isAfter.step lies found⟩

/-- The origin is the first place where the chain can stop. -/
theorem exists_stopsFirstAt_origin (source : Source) (lies : Cursor.LiesIn tree start) :
    ∃ steps, (ofTree source tree).StopsFirstAt start steps ((ofTree source tree).origin start) := by
  obtain ⟨followed, ends⟩ := exists_origin_mem_eval source lies
  obtain ⟨leads, isEnd⟩ := mem_eval.mp ends
  obtain ⟨steps, isAfter⟩ := exists_isAfter_of_reaches lies leads
  exact ⟨steps, (isAfter.follow?_eq_none_iff lies).mp isEnd, isAfter.goesOn⟩

theorem origin_eq_of_stopsFirstAt {last : Cursor} (lies : Cursor.LiesIn tree start)
    (stops : (ofTree source tree).StopsFirstAt start steps last) :
    (ofTree source tree).origin start = last := by
  obtain ⟨steps', originStops⟩ := exists_stopsFirstAt_origin source lies
  exact originStops.unique stops

theorem origin_origin (source : Source) (lies : Cursor.LiesIn tree start) :
    (ofTree source tree).origin ((ofTree source tree).origin start) =
      (ofTree source tree).origin start := by
  obtain ⟨steps, stops⟩ := exists_stopsFirstAt_origin source lies
  have originLies := liesIn_sourceAfter? lies stops.reached
  rcases stops.isStop with ends | ⟨isName, earlier, before, met⟩
  · exact origin_eq_self ends
  · exact origin_eq_of_stopsFirstAt originLies (stops.around before met isName)

/-- A name has the origin of its initializer, unless the initializer leads back to the
name. -/
theorem origin_eq_of_initializer? {value : Cursor} (lies : Cursor.LiesIn tree start)
    (isName : start.kind = .identifier)
    (found : (ofTree source tree).initializer? start = some value)
    (noReturn : ∀ later, (ofTree source tree).sourceAfter? value later ≠ some start) :
    (ofTree source tree).origin value = (ofTree source tree).origin start := by
  have fromName : (ofTree source tree).source? start = some value := by
    simp only [source?, isName, found]
  obtain ⟨steps, stops⟩ := exists_stopsFirstAt_origin source (liesIn_source? lies fromName)
  exact (origin_eq_of_stopsFirstAt lies (stops.cons fromName fun _ => noReturn)).symm

end Search

/-- The search for an origin comes to an end without any bound on its steps.  It ends
at the first expression of the chain that leads no further or is a name met before,
and the origin of the origin is the origin. -/
theorem origin_stops_first (source : Source) {tree : Node} {cursor : Cursor}
    (inTree : cursor ∈ tree.cursors) :
    (∃ followed, ⟨(ofTree source tree).origin cursor, followed⟩ ∈
        eval (ofTree source tree).follow? ⟨cursor, []⟩) ∧
      (∃ steps, (ofTree source tree).StopsFirstAt cursor steps
        ((ofTree source tree).origin cursor)) ∧
      (ofTree source tree).origin ((ofTree source tree).origin cursor) =
        (ofTree source tree).origin cursor := by
  have lies := Cursor.mem_cursors_iff.mp inTree
  exact ⟨exists_origin_mem_eval source lies, exists_stopsFirstAt_origin source lies,
    origin_origin source lies⟩

/-- The text `var a=b,b=a;a`, in which two initializers refer to each other. -/
def circleText : Source := "var a=b,b=a;a".toList

/-- The tree of the text. -/
def circleTree : Node :=
  let declarator (start : Nat) : Node :=
    .ofChildren .variableDeclarator start (start + 3)
      [Node.inField (.leaf .identifier start (start + 1)) .name,
        Node.inField (.leaf .identifier (start + 2) (start + 3)) .value]
  .ofChildren .program 0 13
    [.ofChildren .variableDeclaration 0 12 [declarator 4, declarator 8],
      .ofChildren .expressionStatement 12 13 [.leaf .identifier 12 13]]

/-- The use of a name after the declarations. -/
def circleUse : Cursor := circleTree.cursors.getLast?.getD (Cursor.root circleTree)

/-- The origin of the use is the name in the first initializer, which has an initializer
itself. -/
theorem circle_stops_first :
    (circleUse.span = ⟨12, 13⟩ ∧
      ((ofTree circleText circleTree).origin circleUse).span = ⟨6, 7⟩ ∧
      ((ofTree circleText circleTree).source?
        ((ofTree circleText circleTree).origin circleUse)).isSome) ∧
    (∃ steps, (ofTree circleText circleTree).StopsFirstAt circleUse steps
      ((ofTree circleText circleTree).origin circleUse)) ∧
    (ofTree circleText circleTree).origin ((ofTree circleText circleTree).origin circleUse) =
      (ofTree circleText circleTree).origin circleUse := by
  have inTree : circleUse ∈ circleTree.cursors := List.mem_of_getLast? rfl
  exact ⟨by decide +kernel, (origin_stops_first circleText inTree).2⟩

end ScopeTable

end AssertLint
