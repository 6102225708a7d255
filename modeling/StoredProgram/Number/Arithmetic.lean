import StoredProgram.Number.Basic

/-!
The four operations on numbers, as binary64 arithmetic rounds them. A NaN is passed on with
its sign, and what is undefined gives the NaN with the sign bit set.
-/
namespace StoredProgram

namespace Number

def toFloat (v : Number) : Float := Float.ofBits v.bits

/-- The bit that tells a quiet NaN. -/
def quietBit : UInt64 := 0x0008000000000000

/-- A NaN as an operation passes it on. -/
def quiet (v : Number) : Number := ⟨v.bits ||| quietBit⟩

/-- What an undefined operation gives. -/
def undefined : Number := ofMagnitude true nanMagnitude

/-- An operation that is known by what it does to operands that are no NaNs. If both are
NaNs the first is passed on. -/
def combine (operation : Float → Float → Float) (a b : Number) : Number :=
  if a.isNaN then a.quiet
  else if b.isNaN then b.quiet
  else
    let result := operation a.toFloat b.toFloat
    if result.isNaN then undefined else ⟨result.toBits⟩

instance : Add Number := ⟨combine (· + ·)⟩

instance : Sub Number := ⟨combine (· - ·)⟩

instance : Mul Number := ⟨combine (· * ·)⟩

instance : Div Number := ⟨combine (· / ·)⟩

end Number

end StoredProgram
