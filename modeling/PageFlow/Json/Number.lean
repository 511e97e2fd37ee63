import PageFlow.Json.Basic
import PageFlow.Number.Decimal

namespace PageFlow.Numeral

/--
Appends digits to a significand while it fits 64 bits; gives it with the count of digits kept.
-/
def absorb (significand : Nat) : List Char → Nat × Nat
  | [] => (significand, 0)
  | c :: rest =>
    let next := 10 * significand + (c.toNat - '0'.toNat)
    if next < 1 <<< 64 then
      let (total, count) := absorb next rest
      (total, count + 1)
    else (significand, 0)

/-- The largest exponent that one multiplication or division handles. -/
def powerLimit : Nat := 308

def powerOfTen (exponent : Nat) : Magnitude :=
  .ofNat (Nat.pow 10 exponent)

/-- Divides by `10 ^ exponent`, `10 ^ 308` at a time, until nothing is left. -/
def scaleDown (m : Magnitude) (exponent : Nat) : Magnitude :=
  if exponent ≤ powerLimit then m.div (powerOfTen exponent)
  else if m.rank = 0 then m
  else scaleDown (m.div (powerOfTen powerLimit)) (exponent - powerLimit)
termination_by exponent
decreasing_by simp [powerLimit] at *; omega

/-- `significand * 10 ^ exponent`, or nothing where it is too large. -/
def scale? (significand : Nat) (exponent : Int) : Option Magnitude :=
  let m := Magnitude.ofNat significand
  match exponent with
  | .negSucc e => some (scaleDown m (e + 1))
  | .ofNat e =>
    if e ≤ powerLimit then
      let scaled := m.mul (powerOfTen e)
      if scaled.isFinite then some scaled else none
    else if m.rank = 0 then some m
    else none

/--
A number that is not written as a 64-bit integer. It is rounded twice: to the leading digits
that fit 64 bits, and as their product or quotient with a power of ten.
-/
def float? (negative : Bool) (whole fraction : List Char) (exponent : Int) : Option Numeral :=
  let (leading, kept) := absorb 0 whole
  let (significand, places) := absorb leading fraction
  let shift := (whole.length : Int) - kept - places + exponent
  (scale? significand shift).map fun m => .float (.signed negative m)

/-- A whole number: exact where it fits 64 bits, signed if negative. Minus zero is binary64. -/
def whole? (negative : Bool) (digits : List Char) : Option Numeral :=
  let n := Nat.ofDigitChars 10 digits 0
  if negative then
    if 0 < n ∧ n ≤ 1 <<< 63 then some (.int (-(n : Int))) else float? true digits [] 0
  else if n < 1 <<< 64 then some (.int n)
  else float? false digits [] 0

end PageFlow.Numeral
