import StoredProgram.Number.Literal
import StoredProgram.Template.Basic

/-!
Splitting a template into segments. After a percent sign stand flags, a width, a
precision and length letters, each of them optional and as long as possible, and one
character more decides: a conversion letter makes a conversion, a percent sign right
after the first one makes a single percent sign, and anything else stands for itself.
-/
namespace StoredProgram

/-- What stands between a percent sign and the character that decides. -/
structure Directive where
  flags : List Char
  width : List Char
  precision : Option (List Char)
  lengths : List Char
deriving DecidableEq

namespace Directive

def isFlag (c : Char) : Bool := ['-', '+', ' ', '0', '#'].contains c

/-- The length letters are read and have no effect. -/
def isLength (c : Char) : Bool := ['h', 'l', 'L', 'q', 'j', 'z', 't'].contains c

/-- Wider or more precise conversions are not conversions. -/
def fieldLimit : Nat := 4096

def splitPrecision : List Char → Option (List Char) × List Char
  | '.' :: rest => (some (rest.takeWhile Char.isDigit), rest.dropWhile Char.isDigit)
  | text => (none, text)

/-- Reads a directive after its percent sign and gives what follows it. -/
def read (text : List Char) : Directive × List Char :=
  let afterFlags := text.dropWhile isFlag
  let precision := splitPrecision (afterFlags.dropWhile Char.isDigit)
  ({ flags := text.takeWhile isFlag
     width := afterFlags.takeWhile Char.isDigit
     precision := precision.1
     lengths := precision.2.takeWhile isLength },
    precision.2.dropWhile isLength)

/-- The directive as it is written. -/
def source (d : Directive) : List Char :=
  '%' :: (d.flags ++ d.width ++
    (match d.precision with | none => [] | some digits => '.' :: digits) ++ d.lengths)

def parsedFlags (d : Directive) : Flags where
  left := d.flags.contains '-'
  plus := d.flags.contains '+'
  space := d.flags.contains ' '
  zero := d.flags.contains '0'
  alternate := d.flags.contains '#'

/-- The number that the digits of a width or a precision denote. It stays within the sizes,
where the largest stands for all that is larger. -/
def fieldValue (digits : List Char) : Nat :=
  digits.foldl
    (fun value c =>
      min (min (10 * value) Literal.largestSize + (c.toNat - '0'.toNat)) Literal.largestSize) 0

def widthValue (d : Directive) : Option Nat :=
  if d.width = [] then none else some (fieldValue d.width)

/-- A point without digits is a precision of zero. -/
def precisionValue (d : Directive) : Option Nat := d.precision.map fieldValue

def letter? : Char → Option (Style × Bool)
  | 'f' => some (.fixed, false)
  | 'F' => some (.fixed, true)
  | 'e' => some (.scientific, false)
  | 'E' => some (.scientific, true)
  | 'g' => some (.general, false)
  | 'G' => some (.general, true)
  | 'd' => some (.integer, false)
  | 'i' => some (.integer, false)
  | _ => none

/-- The conversion that a directive makes with its letter. -/
def conversion? (d : Directive) (letter : Char) : Option Conversion :=
  if d.widthValue.getD 0 ≤ fieldLimit ∧ d.precisionValue.getD 0 ≤ fieldLimit then
    (letter? letter).map fun (style, upper) =>
      { flags := d.parsedFlags
        width := d.widthValue
        precision := d.precisionValue
        style := style
        upper := upper }
  else none

/-- The segment of a directive with the character that follows it, if there is one. -/
def segment (d : Directive) : Option Char → Segment
  | none => ⟨d.source, .literal d.source⟩
  | some c =>
    let written := d.source ++ [c]
    if written = ['%', '%'] then ⟨written, .literal ['%']⟩
    else match d.conversion? c with
      | some conversion => ⟨written, .conversion conversion⟩
      | none => ⟨written, .literal written⟩

theorem length_splitPrecision_le (text : List Char) :
    (splitPrecision text).2.length ≤ text.length := by
  unfold splitPrecision
  split
  · have := (List.dropWhile_suffix (l := ‹List Char›) Char.isDigit).length_le
    simp only [List.length_cons]
    omega
  · exact Nat.le_refl _

theorem length_read_le (text : List Char) : (read text).2.length ≤ text.length := by
  have hflags := (List.dropWhile_suffix (l := text) isFlag).length_le
  have hwidth := (List.dropWhile_suffix (l := text.dropWhile isFlag) Char.isDigit).length_le
  have hprecision := length_splitPrecision_le ((text.dropWhile isFlag).dropWhile Char.isDigit)
  have hlengths := (List.dropWhile_suffix isLength
    (l := (splitPrecision ((text.dropWhile isFlag).dropWhile Char.isDigit)).2)).length_le
  simp only [read]
  omega

end Directive

/-- The segments of a text, from left to right. -/
def segmentsOf (text : List Char) : List Segment :=
  match text with
  | [] => []
  | c :: rest =>
    if c = '%' then
      (Directive.read rest).1.segment (Directive.read rest).2.head? ::
        segmentsOf (Directive.read rest).2.tail
    else ⟨[c], .literal [c]⟩ :: segmentsOf rest
termination_by text.length
decreasing_by
  · have := Directive.length_read_le rest
    simp only [List.length_tail, List.length_cons]
    omega
  · simp

def Template.segments (t : Template) : List Segment := segmentsOf t.text.toList

end StoredProgram
