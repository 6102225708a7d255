import StoredProgram.Number.Nearest

/-!
Literals. A size is written in decimal digits after an optional plus sign, and fits
an unsigned 64-bit word. A number has an optional sign before digits with an optional
point and an optional decimal exponent, or before one of the words inf, infinity and
nan in any case; it stands for the binary64 number nearest to what is written.
-/
namespace StoredProgram.Literal

def largestSize : Nat := 0xFFFFFFFFFFFFFFFF

def digitsValue (digits : List Char) : Nat := Nat.ofDigitChars 10 digits 0

def unsignedSize? (digits : List Char) : Option Nat :=
  if digits ≠ [] ∧ digits.all Char.isDigit ∧ digitsValue digits ≤ largestSize then
    some (digitsValue digits)
  else none

/-- The size that a text denotes. A minus sign is refused, also before zero. -/
def size? (text : String) : Option Nat :=
  match text.toList with
  | '+' :: digits => unsignedSize? digits
  | digits => unsignedSize? digits

/-- The magnitude nearest to the digits, as an integer, times the power of ten. Outside
the range of the exponents that matter the power is not computed: from `10 ^ 309` on all
is infinite, and below `10 ^ -324` all is zero. -/
def decimalMagnitude (digits : List Char) (exponent : Int) : Nat :=
  let leading := digits.dropWhile (· == '0')
  let rank : Int := leading.length + exponent
  if leading = [] ∨ rank ≤ -324 then 0
  else if 309 < rank then Number.infinityMagnitude
  else
    Number.nearestMagnitude (digitsValue leading * Nat.pow 10 exponent.toNat)
      (Nat.pow 10 (-exponent).toNat)

/-- Splits off one leading sign, with whether it is a minus. -/
def splitSign : List Char → Bool × List Char
  | '-' :: rest => (true, rest)
  | '+' :: rest => (false, rest)
  | text => (false, text)

/-- The digits after a point, if one leads the text, and what follows them. -/
def splitFraction : List Char → List Char × List Char
  | '.' :: rest => (rest.takeWhile Char.isDigit, rest.dropWhile Char.isDigit)
  | text => ([], text)

/-- Where an exponent stops growing. -/
def exponentLimit : Nat := 0x10000

/-- The value of the digits of an exponent. Digits that follow once the limit is reached
are passed over. Only a literal with about as many digits before its exponent could tell:
any other is infinite or zero by then. -/
def exponentValue (digits : List Char) : Nat :=
  digits.foldl
    (fun value c => if value < exponentLimit then 10 * value + (c.toNat - '0'.toNat) else value) 0

/-- The exponent that a text denotes, which is zero if there is no text at all. -/
def exponent? : List Char → Option Int
  | [] => some 0
  | mark :: text =>
    let (negative, digits) := splitSign text
    if (mark = 'e' ∨ mark = 'E') ∧ digits ≠ [] ∧ digits.all Char.isDigit then
      some (if negative then -(exponentValue digits : Int) else exponentValue digits)
    else none

/-- The magnitude that digits with an optional point and exponent denote. At least one
digit stands before the exponent. -/
def decimal? (text : List Char) : Option Nat :=
  let whole := text.takeWhile Char.isDigit
  let (fraction, rest) := splitFraction (text.dropWhile Char.isDigit)
  if whole ++ fraction = [] then none
  else (exponent? rest).map fun exponent =>
    decimalMagnitude (whole ++ fraction) (exponent - fraction.length)

/-- The magnitude that a text without a sign denotes. -/
def magnitude? (text : List Char) : Option Nat :=
  let word := String.ofList (text.map Char.toLower)
  if word = "inf" ∨ word = "infinity" then some Number.infinityMagnitude
  else if word = "nan" then some Number.nanMagnitude
  else decimal? text

/-- The number that a text denotes. The sign counts, also that of a zero or a NaN. -/
def number? (text : String) : Option Number :=
  let (negative, rest) := splitSign text.toList
  (magnitude? rest).map (Number.ofMagnitude negative)

end StoredProgram.Literal
