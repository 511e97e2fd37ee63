namespace PageFlow

/-- `num / den` to the nearest natural number, a half to the even neighbour. -/
def roundHalfEven (num den : Nat) : Nat :=
  let quotient := num / den
  let twice := 2 * (num % den)
  if twice < den ∨ twice = den ∧ quotient % 2 = 0 then quotient else quotient + 1

/--
A non-negative binary64 value. Rank 0 is zero, the successor of a value has the next rank, and the
last rank is infinity.
-/
structure Magnitude where
  rank : Nat
  rank_le : rank ≤ 2047 <<< 52

namespace Magnitude

theorem ext_rank {a b : Magnitude} (h : a.rank = b.rank) : a = b := by
  cases a; cases b; cases h; rfl

instance : DecidableEq Magnitude := fun a b =>
  if h : a.rank = b.rank then isTrue (ext_rank h) else isFalse fun e => h (e ▸ rfl)

def zero : Magnitude := ⟨0, Nat.zero_le _⟩

def infinity : Magnitude := ⟨2047 <<< 52, Nat.le_refl _⟩

/-- The magnitude of a rank, infinity for a rank past the last. -/
def ofRank (rank : Nat) : Magnitude :=
  if h : rank ≤ 2047 <<< 52 then ⟨rank, h⟩ else infinity

def isFinite (m : Magnitude) : Bool :=
  m.rank < 2047 <<< 52

/--
The value of a rank in units of `2 ^ (-1074)`, the least positive value. Each block of `2 ^ 52`
ranks after the first two has twice the spacing of the block before it. Infinity counts as the value
that would follow the largest finite one.
-/
def unitsOfRank (rank : Nat) : Nat :=
  let block := rank >>> 52
  if block = 0 then rank else (rank % (1 <<< 52) + (1 <<< 52)) <<< (block - 1)

def units (m : Magnitude) : Nat :=
  unitsOfRank m.rank

/-- The magnitude nearest to `num / den`, halfway cases to the even rank. -/
def ofQuotient (num den : Nat) : Magnitude :=
  let scaled := num <<< 1074
  let block := (scaled / den).log2 - 52
  ofRank ((block <<< 52) + roundHalfEven scaled (den <<< block))

def ofNat (n : Nat) : Magnitude :=
  ofQuotient n 1

/-- The nearest magnitude to a product of finite ones. -/
def mul (a b : Magnitude) : Magnitude :=
  ofQuotient (a.units * b.units) (1 <<< 2148)

/-- The nearest magnitude to a quotient of finite ones. -/
def div (a b : Magnitude) : Magnitude :=
  ofQuotient a.units b.units

end Magnitude

inductive Double where
  | nan
  | signed (negative : Bool) (magnitude : Magnitude)
deriving DecidableEq

namespace Double

def ofNat (n : Nat) : Double :=
  .signed false (.ofNat n)

def ofInt (n : Int) : Double :=
  .signed (n < 0) (.ofNat n.natAbs)

/-- The number with a 64-bit pattern: a sign bit before 63 bits of rank. -/
def ofBits (bits : UInt64) : Double :=
  let rank := bits.toNat % (1 <<< 63)
  if h : rank ≤ 2047 <<< 52 then .signed (bits.toNat >>> 63 == 1) ⟨rank, h⟩ else .nan

def zero : Double := .signed false .zero

def one : Double := ofNat 1

def infinity (negative : Bool) : Double :=
  .signed negative .infinity

def isNaN : Double → Bool
  | nan => true
  | signed .. => false

def isFinite : Double → Bool
  | nan => false
  | signed _ m => m.isFinite

/-- The place on the line of ranks; both zeros stand at 0. -/
def place (negative : Bool) (m : Magnitude) : Int :=
  if negative then -(m.rank : Int) else m.rank

/-- Numerical equality: the zeros are equal, and a NaN equals nothing. -/
def same : Double → Double → Bool
  | signed s a, signed t b => place s a == place t b
  | _, _ => false

/-- Numerical order; a NaN precedes nothing and nothing precedes it. -/
def less : Double → Double → Bool
  | signed s a, signed t b => place s a < place t b
  | _, _ => false

/-- `x ≤ y`, false where either is a NaN. -/
def atMost : Double → Double → Bool
  | signed s a, signed t b => place s a ≤ place t b
  | _, _ => false

/-- The integer part, toward zero, of a finite number. -/
def truncate? : Double → Option Int
  | nan => none
  | signed negative m =>
    if m.isFinite then
      let whole : Int := m.units >>> 1074
      some (if negative then -whole else whole)
    else none

/-- The number as an integer, where it is one. -/
def toInt? : Double → Option Int
  | nan => none
  | x@(signed _ m) => if m.units % (1 <<< 1074) = 0 then x.truncate? else none

end Double

end PageFlow
