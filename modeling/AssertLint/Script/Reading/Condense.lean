import AssertLint.Script.Reading.Basic

/-!
# Keeping the promising ways

After every terminal the ways are compared with each other.  A way that is
stuck is given up as long as another one is not, ways that have come together
are joined, and the more favored ones are put first, since only the first few
are followed further.
-/

namespace AssertLint

namespace Script

namespace Reading

/-- Removes a way. -/
def removeWay (reading : Reading) (way : Nat) : Reading :=
  { reading with ways := reading.ways.eraseIdxIfInBounds way }

/-- Joins two ways that have come to the same state at the same place. -/
def joinWays? (reading : Reading) (first second : Nat) : Option Reading :=
  let target := (reading.way first).knot
  let source := (reading.way second).knot
  if reading.isActive first && reading.isActive second &&
      reading.knots.areAlike target source then
    some ({ reading with knots := reading.knots.join target source }.removeWay second)
  else
    none

/-- How promising a way is: whether it is stuck, and how much it is favored. -/
structure Promise where
  isStuck : Bool
  favor : Int

/-- How promising a way is. -/
def promise (reading : Reading) (way : Nat) : Promise :=
  ⟨(reading.way way).progress = .stuck, (reading.top way).favor⟩

/-- Compares the way `second` with those before it, of which `first` is the next
one.  Of two ways only one of which is stuck, that one is dropped; ways are
joined where they can be; and a more favored way is put before the other one.
The number of the next way to compare is returned too. -/
def settle (promised : Promise) :
    (remaining : Nat) → (first second : Nat) → Reading → Reading × Nat
  | 0, _, second, reading => (reading, second + 1)
  | remaining + 1, first, second, reading =>
      let other := reading.promise first
      if !other.isStuck && promised.isStuck then (reading.removeWay second, second)
      else if other.isStuck && !promised.isStuck then
        settle promised remaining first (second - 1) (reading.removeWay first)
      else
        match reading.joinWays? first second with
        | some joined => (joined, second)
        | none =>
            if other.favor < promised.favor then
              settle promised remaining (first + 1) second
                { reading with ways := reading.ways.swapIfInBounds first second }
            else
              settle promised remaining (first + 1) second reading

/-- Tidies up the ways from a given one on. -/
def condenseFrom : (bound : Nat) → (way : Nat) → Reading → Reading
  | 0, _, reading => reading
  | bound + 1, way, reading =>
      if way < reading.ways.size then
        if (reading.way way).progress = .ended then
          condenseFrom bound way (reading.removeWay way)
        else
          let (settled, next) := settle (reading.promise way) way 0 way reading
          condenseFrom bound next settled
      else
        reading

/-- Tidies up the ways and keeps the first few.  Every step passes a way or
removes one. -/
def condense (reading : Reading) : Reading :=
  let condensed := condenseFrom (2 * reading.ways.size + 1) 0 reading
  { condensed with ways := condensed.ways.take wayLimit }

end Reading

end Script

end AssertLint
