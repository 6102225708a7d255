import StoredProgram.Number.Basic

/-!
Rounding a quotient of natural numbers to the nearest integer and to the nearest
binary64 number. A tie goes to the even neighbour in both.
-/
namespace StoredProgram

/-- The integer nearest to `num / den`. -/
def divNearest (num den : Nat) : Nat :=
  let quotient := num / den
  let rest := num % den
  if 2 * rest < den then quotient
  else if den < 2 * rest then quotient + 1
  else quotient + quotient % 2

/-- The magnitude of the number nearest to `num / den`. The quotient in units has
`53 + shift` binary digits, of which the leading 53 are kept; with fewer than 53 it is
the magnitude itself. A carry out of the kept digits moves on to the next exponent. -/
def Number.nearestMagnitude (num den : Nat) : Nat :=
  let scaled := num * unitsPerOne
  let shift := (scaled / den).log2 - 52
  min infinityMagnitude (shift * fractionCount + divNearest scaled (den * Nat.pow 2 shift))

end StoredProgram
