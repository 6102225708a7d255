import StoredProgram.Number.Nearest

/-!
Decimal forms of the absolute value of a finite number. The exact value is rounded
to a number of decimal places, or to a number of significant digits, and a tie goes
to the even neighbour.
-/
namespace StoredProgram

/-- The decimal digits of `n`, filled up with leading zeros to at least `count`. -/
def zeroFilled (count n : Nat) : List Char := (Nat.toDigits 10 n).leftpad count '0'

/-- A count of `10 ^ -places` in positional form. -/
def positional (n places : Nat) : List Char :=
  Nat.toDigits 10 (n / Nat.pow 10 places) ++
    if places = 0 then [] else '.' :: zeroFilled places (n % Nat.pow 10 places)

/-- A value `coefficient * 10 ^ (exponent - places)`, whose coefficient has one digit
before its `places` and is zero only for zero. -/
structure Scientific where
  coefficient : Nat
  exponent : Int
deriving DecidableEq

/-- Moves on to the next exponent if the coefficient has grown by a digit. -/
def Scientific.carry (places : Nat) (d : Scientific) : Scientific :=
  if d.coefficient = Nat.pow 10 (places + 1) then ⟨Nat.pow 10 places, d.exponent + 1⟩ else d

namespace Number

/-- The number in units of the last of the given decimal places. -/
def roundedAt (v : Number) (places : Nat) : Nat :=
  divNearest (v.units * Nat.pow 10 places) unitsPerOne

/-- Positional form with the given number of decimal places. -/
def fixed (v : Number) (places : Nat) : List Char := positional (v.roundedAt places) places

/-- The decimal exponent of the smallest positive number is `-lowestExponent`. -/
def lowestExponent : Nat := 324

/-- The exponent of the leading decimal digit, counted from that of the smallest
positive number. -/
def decimalRank (v : Number) : Nat :=
  (Nat.toDigits 10 (v.units * Nat.pow 10 lowestExponent / unitsPerOne)).length - 1

/-- The coefficient with the given places after the leading digit is the quotient of
these two numbers. -/
def coefficientNum (v : Number) (places : Nat) : Nat :=
  v.units * Nat.pow 10 (lowestExponent + places)

def coefficientDen (rank : Nat) : Nat := unitsPerOne * Nat.pow 10 rank

def exponentOfRank (rank : Nat) : Int := rank - lowestExponent

/-- Scientific form with the given number of places after the leading digit. -/
def scientific (v : Number) (places : Nat) : Scientific :=
  if v.isZero then ⟨0, 0⟩
  else
    let rank := v.decimalRank
    Scientific.carry places
      ⟨divNearest (v.coefficientNum places) (coefficientDen rank), exponentOfRank rank⟩

end Number

end StoredProgram
