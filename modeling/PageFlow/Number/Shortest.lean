import PageFlow.Number.Decimal

namespace PageFlow

/-- Which of two equally near decimals is taken. -/
inductive Tie where
  | up
  | even
deriving DecidableEq

namespace Magnitude

/-- A count of half units, as a numerator over `2 ^ 1075 * 10 ^ 400`. -/
def numerator (halfUnits : Nat) : Nat :=
  halfUnits * Nat.pow 10 400

/-- Between the two ends, which belong only if `closed`. -/
def within (low high : Nat) (closed : Bool) (x : Nat) : Bool :=
  if closed then low ≤ x && x ≤ high else low < x && x < high

/--
The multiple of `step` nearest to `mid` of the two around it, if either reads back. Gives the
factor.
-/
def nearestHit? (tie : Tie) (low mid high : Nat) (closed : Bool) (step : Nat) : Option Nat :=
  let below := mid / step
  let above := below + 1
  let hit n := within low high closed (n * step)
  match hit below, hit above with
  | false, false => none
  | true, false => some below
  | false, true => some above
  | true, true =>
    let down := mid - below * step
    let up := above * step - mid
    if down < up then some below
    else if up < down then some above
    else match tie with
      | .up => some above
      | .even => some (if below % 2 = 0 then below else above)

/--
The decimal with the fewest digits among those nearer to `m` than to any other magnitude. A decimal
halfway between two magnitudes counts for the even one. Seventeen digits always suffice.
-/
def shortest (tie : Tie) (m : Magnitude) : Decimal :=
  let mid := numerator (2 * m.units)
  let low := numerator (unitsOfRank (m.rank - 1) + m.units)
  let high := numerator (m.units + unitsOfRank (m.rank + 1))
  let closed := m.rank % 2 = 0
  let lead := (Nat.toDigits 10 (mid >>> 1075)).length
  let grid (count : Nat) : Option Decimal :=
    (nearestHit? tie low mid high closed (Nat.pow 10 (lead - count) <<< 1075)).map
      fun n => ⟨n, (lead : Int) - count - 400⟩
  ((List.range 17).findSome? fun i => grid (i + 1)).getD ⟨0, 0⟩

end Magnitude

end PageFlow
