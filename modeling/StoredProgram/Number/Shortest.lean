import StoredProgram.Number.Decimal
import StoredProgram.Number.Literal

/-!
The shortest decimal text of a number: the fewest significant digits that read back
as the number, and of the candidates with that many digits the nearest, where a tie
goes up. Very large and very small numbers are written with an exponent, all others
positionally and with at least one decimal place.
-/
namespace StoredProgram.Number

def readsBack (v : Number) (places : Nat) (d : Scientific) : Bool :=
  Literal.decimalMagnitude (Nat.toDigits 10 d.coefficient) (d.exponent - places) = v.magnitude

/-- The two decimals next to the value that have the given places after the leading
digit, the nearer one first. If both are equally near the upper one comes first. -/
def neighbours (v : Number) (places : Nat) : Scientific × Scientific :=
  let rank := v.decimalRank
  let lower := v.coefficientNum places / coefficientDen rank
  let rest := v.coefficientNum places % coefficientDen rank
  let below : Scientific := ⟨lower, exponentOfRank rank⟩
  let above := Scientific.carry places ⟨lower + 1, exponentOfRank rank⟩
  if 2 * rest < coefficientDen rank then (below, above) else (above, below)

/-- The nearer of the two neighbours that reads back, if one does. -/
def decimalAt? (v : Number) (places : Nat) : Option Scientific :=
  [(v.neighbours places).1, (v.neighbours places).2].find? (v.readsBack places)

/-- The shortest decimal of a finite number, with its places. Where fewer digits do not
read back the nearest decimal of seventeen digits does. -/
def shortestDecimal (v : Number) : Scientific × Nat :=
  if v.isZero then (⟨0, 0⟩, 0)
  else
    ((List.range 16).findSome? fun places =>
      (v.decimalAt? places).map fun d => (d, places)).getD
      ((v.neighbours 16).1, 16)

/-- The text of a decimal. It is positional from `10 ^ -4` up to below `10 ^ 16`. -/
def decimalText (d : Scientific) (places : Nat) : List Char :=
  if d.exponent < -4 ∨ 16 ≤ d.exponent then
    positional d.coefficient places ++ 'e' :: (toString d.exponent).toList
  else if d.exponent < places then
    positional d.coefficient (places - d.exponent).toNat
  else
    positional (d.coefficient * Nat.pow 10 (d.exponent - places + 1).toNat) 1

/-- The text of any number. The sign of a NaN is not written. -/
def shortest (v : Number) : String :=
  if v.isNaN then "NaN"
  else
    let text :=
      if v.isFinite then decimalText v.shortestDecimal.1 v.shortestDecimal.2 else "inf".toList
    String.ofList (if v.isNegative then '-' :: text else text)

end StoredProgram.Number
