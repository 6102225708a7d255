/-!
Binary64 numbers as bit patterns. The low 63 bits are the magnitude; up to the
magnitude of infinity they grow with the absolute value, and larger magnitudes are
NaNs. A finite number is a whole count of units of 2^-1074, which makes every question
about its digits one about natural numbers.
-/
namespace StoredProgram

/-- A binary64 number, held as its bits so that a copy keeps even the sign of a NaN. -/
structure Number where
  bits : UInt64
deriving DecidableEq

namespace Number

/-- The weight of the sign bit. -/
def signWeight : Nat := 0x8000000000000000

/-- The weight of the lowest exponent bit, which is the number of fractions per exponent. -/
def fractionCount : Nat := 0x10000000000000

def infinityMagnitude : Nat := 0x7FF0000000000000

def nanMagnitude : Nat := 0x7FF8000000000000

/-- How many of the smallest positive number make one. -/
def unitsPerOne : Nat := Nat.pow 2 1074

def ofMagnitude (negative : Bool) (magnitude : Nat) : Number :=
  ⟨UInt64.ofNat (if negative then signWeight + magnitude else magnitude)⟩

def zero : Number := ⟨0⟩

def one : Number := ⟨0x3FF0000000000000⟩

instance : Inhabited Number := ⟨zero⟩

def magnitude (v : Number) : Nat := v.bits.toNat % signWeight

def isNegative (v : Number) : Bool := signWeight ≤ v.bits.toNat

/-- Both zeros are zero. -/
def isZero (v : Number) : Bool := v.magnitude = 0

def isFinite (v : Number) : Bool := v.magnitude < infinityMagnitude

def isNaN (v : Number) : Bool := infinityMagnitude < v.magnitude

/-- The absolute value in units of the smallest positive number. Infinity counts as the
power of two that follows the largest finite number. -/
def units (v : Number) : Nat :=
  if v.magnitude < fractionCount then v.magnitude
  else (fractionCount + v.magnitude % fractionCount) *
    Nat.pow 2 (v.magnitude / fractionCount - 1)

/-- The integers that fit a signed 64-bit word, with the nearest one for all others. -/
def clampToWord (n : Int) : Int := max (-0x8000000000000000) (min n 0x7FFFFFFFFFFFFFFF)

/-- The value cut off toward zero, as a signed 64-bit word. A NaN gives zero. -/
def truncate (v : Number) : Int :=
  if v.isNaN then 0
  else
    let whole : Int := v.units / unitsPerOne
    clampToWord (if v.isNegative then -whole else whole)

end Number

end StoredProgram
