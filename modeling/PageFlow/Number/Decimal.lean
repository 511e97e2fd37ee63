import PageFlow.Number.Double

namespace PageFlow

/-- The value `coefficient * 10 ^ exponent`. -/
structure Decimal where
  coefficient : Nat
  exponent : Int
deriving DecidableEq

namespace Decimal

/-- The digits of the coefficient, one `0` for zero. -/
def digits (d : Decimal) : List Char :=
  Nat.toDigits 10 d.coefficient

/--
The magnitude nearest to a decimal. A value below `10 ^ (-330)` is nearest to zero and one of at
least `10 ^ 310` is past every finite value, so powers of any size need not be computed.
-/
def nearest (d : Decimal) : Magnitude :=
  let places := (d.digits.length : Int) + d.exponent
  if d.coefficient = 0 ∨ places < -330 then .zero
  else if 310 < places then .infinity
  else match d.exponent with
    | .ofNat e => .ofQuotient (d.coefficient * Nat.pow 10 e) 1
    | .negSucc e => .ofQuotient d.coefficient (Nat.pow 10 (e + 1))

end Decimal

/-- A sign, when one is written, and what follows it. -/
def takeSign : List Char → Bool × List Char
  | '-' :: rest => (true, rest)
  | '+' :: rest => (false, rest)
  | rest => (false, rest)

/-- A decimal integer with an optional sign. -/
def readInteger? (text : List Char) : Option Int :=
  let (negative, digits) := takeSign text
  if digits.isEmpty || !digits.all Char.isDigit then none
  else
    let n : Int := Nat.ofDigitChars 10 digits 0
    some (if negative then -n else n)

/-- The exponent part of a numeral: nothing, or `e` with an optional sign and digits. -/
def readExponent? : List Char → Option Int
  | [] => some 0
  | mark :: rest =>
    let (negative, digits) := takeSign rest
    if (mark == 'e' || mark == 'E') && !digits.isEmpty && digits.all Char.isDigit then
      let value : Int := Nat.ofDigitChars 10 digits 0
      some (if negative then -value else value)
    else none

/--
Reads a numeral: an optional sign, digits with an optional point among, before or after them, and an
optional exponent. Gives the sign and the decimal.
-/
def readNumeral? (text : List Char) : Option (Bool × Decimal) :=
  let (negative, body) := takeSign text
  let whole := body.takeWhile Char.isDigit
  let afterWhole := body.dropWhile Char.isDigit
  let (fraction, rest) := match afterWhole with
    | '.' :: more => (more.takeWhile Char.isDigit, more.dropWhile Char.isDigit)
    | other => ([], other)
  if whole.isEmpty && fraction.isEmpty then none
  else (readExponent? rest).map fun e =>
    (negative, ⟨Nat.ofDigitChars 10 (whole ++ fraction) 0, e - fraction.length⟩)

/-- The number nearest to a numeral. -/
def Double.ofNumeral? (text : List Char) : Option Double :=
  (readNumeral? text).map fun (negative, decimal) => .signed negative decimal.nearest

/-- Words for numbers that are not finite, in either case, with an optional sign. -/
def Double.ofWord? (text : List Char) : Option Double :=
  let (negative, word) := takeSign (text.map Char.toLower)
  if word = "inf".toList ∨ word = "infinity".toList then some (.infinity negative)
  else if word = "nan".toList then some .nan
  else none

/-- What a text is as a number, if it is a numeral or a word for a number. -/
def Double.ofText? (text : List Char) : Option Double :=
  (Double.ofNumeral? text).or (Double.ofWord? text)

end PageFlow
