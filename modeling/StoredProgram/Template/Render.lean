import StoredProgram.Number.Decimal
import StoredProgram.Template.Segments
import StoredProgram.Text.Blank

/-!
Rendering a number through a template. A conversion writes a sign and a body, and
fills up to its width with blanks on either side or with zeros in between.
-/
namespace StoredProgram

namespace Conversion

/-- Ends a number without a point by one, for the alternate form. -/
def withPoint (alternate : Bool) (places : Nat) (digits : List Char) : List Char :=
  if alternate ∧ places = 0 then digits ++ ['.'] else digits

/-- The exponent mark with a sign and at least two digits. -/
def exponentText (upper : Bool) (exponent : Int) : List Char :=
  (if upper then 'E' else 'e') :: (if exponent < 0 then '-' else '+') ::
    zeroFilled 2 exponent.natAbs

/-- A number without the zeros that end its decimal places, and without the point if no
place is left. -/
def withoutZeros (digits : List Char) : List Char :=
  if digits.contains '.' then
    Text.dropEndWhile (· == '.') (Text.dropEndWhile (· == '0') digits)
  else digits

def fixedBody (c : Conversion) (v : Number) (places : Nat) : List Char :=
  withPoint c.flags.alternate places (v.fixed places)

def mantissa (c : Conversion) (d : Scientific) (places : Nat) : List Char :=
  withPoint c.flags.alternate places (positional d.coefficient places)

def scientificBody (c : Conversion) (v : Number) (places : Nat) : List Char :=
  let d := v.scientific places
  c.mantissa d places ++ exponentText c.upper d.exponent

def trimmed (c : Conversion) (digits : List Char) : List Char :=
  if c.flags.alternate then digits else withoutZeros digits

/-- There are six places unless a precision is given. -/
def places (c : Conversion) : Nat := c.precision.getD 6

/-- The number of significant digits of the general style, of which there is at least
one. -/
def significantDigits (c : Conversion) : Nat := max 1 c.places

/-- The general style is positional for exponents from -4 up to the number of
significant digits. -/
def generalBody (c : Conversion) (v : Number) : List Char :=
  let places := c.significantDigits - 1
  let d := v.scientific places
  if -4 ≤ d.exponent ∧ d.exponent < c.significantDigits then
    c.trimmed (c.fixedBody v (places - d.exponent).toNat)
  else c.trimmed (c.mantissa d places) ++ exponentText c.upper d.exponent

/-- What stands in place of digits for a number that is not finite. -/
def word (c : Conversion) (v : Number) : List Char :=
  let lower := if v.isNaN then "nan".toList else "inf".toList
  if c.upper then lower.map Char.toUpper else lower

/-- The rendering without sign and filling. -/
def body (c : Conversion) (v : Number) : List Char :=
  match c.style, v.isFinite with
  | .integer, _ => zeroFilled (c.precision.getD 0) v.truncate.natAbs
  | .fixed, true => c.fixedBody v c.places
  | .scientific, true => c.scientificBody v c.places
  | .general, true => c.generalBody v
  | _, false => c.word v

/-- An integer is negative if anything is left of it; otherwise the sign bit counts. -/
def isNegative (c : Conversion) (v : Number) : Bool :=
  if c.style = .integer then v.truncate < 0 else v.isNegative

def sign (c : Conversion) (v : Number) : List Char :=
  if c.isNegative v then ['-']
  else if c.flags.plus then ['+']
  else if c.flags.space then [' ']
  else []

/-- Zeros fill up a finite number, unless it is an integer with a precision. -/
def fillsWithZeros (c : Conversion) (v : Number) : Bool :=
  c.flags.zero && v.isFinite && !(c.style = .integer && c.precision.isSome)

def render (c : Conversion) (v : Number) : List Char :=
  let sign := c.sign v
  let body := c.body v
  let missing := c.width.getD 0 - (sign ++ body).length
  if c.flags.left then sign ++ body ++ List.replicate missing ' '
  else if c.fillsWithZeros v then sign ++ List.replicate missing '0' ++ body
  else List.replicate missing ' ' ++ sign ++ body

end Conversion

def Piece.render (v : Number) : Piece → List Char
  | .literal text => text
  | .conversion c => c.render v

def Template.render (t : Template) (v : Number) : String :=
  String.ofList (t.segments.flatMap fun segment => segment.piece.render v)

/-- Six significant digits at most, as instructions show their literals. -/
def Number.brief (v : Number) : String := (Template.mk "%g").render v

end StoredProgram
