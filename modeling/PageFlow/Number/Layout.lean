import PageFlow.Number.Shortest

namespace PageFlow

structure Layout where
  /-- The least exponent, of the form `d.ddd` times a power of ten, that is written in place. -/
  least : Int
  /-- The greatest exponent that is written in place. -/
  greatest : Int
  /-- Whether a whole number written in place ends in `.0`. -/
  pointed : Bool
  tie : Tie
deriving DecidableEq

namespace Layout

/-- The digits without the zeros at their end; at least one digit is left. -/
def significant (digits : List Char) : List Char :=
  match (digits.reverse.dropWhile (· == '0')).reverse with
  | [] => ['0']
  | kept => kept

/-- Digits with the point in place, for a leading digit at `10 ^ exponent`. -/
def inPlace (pointed : Bool) (digits : List Char) : Int → List Char
  | .negSucc e => '0' :: '.' :: (List.replicate e '0' ++ digits)
  | .ofNat e =>
    if digits.length ≤ e + 1 then
      digits ++ List.replicate (e + 1 - digits.length) '0' ++ if pointed then ['.', '0'] else []
    else digits.take (e + 1) ++ '.' :: digits.drop (e + 1)

/-- Digits with a point after the first and a signed exponent. -/
def withExponent (digits : List Char) (exponent : Int) : List Char :=
  let mantissa := match digits with
    | first :: rest@(_ :: _) => first :: '.' :: rest
    | short => short
  let sign := if exponent < 0 then '-' else '+'
  mantissa ++ 'e' :: sign :: Nat.toDigits 10 exponent.natAbs

/-- A decimal that is not zero, or the digit zero. -/
def decimal (layout : Layout) (d : Decimal) : List Char :=
  let digits := significant d.digits
  let exponent := (d.digits.length : Int) + d.exponent - 1
  if layout.least ≤ exponent ∧ exponent ≤ layout.greatest then
    inPlace layout.pointed digits exponent
  else withExponent digits exponent

/-- A finite magnitude, by its shortest digits. -/
def magnitude (layout : Layout) (m : Magnitude) : List Char :=
  layout.decimal (if m.rank = 0 then ⟨0, 0⟩ else m.shortest layout.tie)

/-- A sign for negative numbers, the zero among them, before a finite magnitude. -/
def signed (layout : Layout) (negative : Bool) (m : Magnitude) : List Char :=
  if negative then '-' :: layout.magnitude m else layout.magnitude m

end Layout

end PageFlow
