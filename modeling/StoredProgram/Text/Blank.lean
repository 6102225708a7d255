/-!
Blank characters, those with the Unicode property White_Space, and trimming.
-/
namespace StoredProgram.Text

/-- The code points with the property White_Space, in increasing order. -/
def blankCodes : List Nat :=
  [0x0009, 0x000A, 0x000B, 0x000C, 0x000D, 0x0020, 0x0085, 0x00A0, 0x1680,
   0x2000, 0x2001, 0x2002, 0x2003, 0x2004, 0x2005, 0x2006, 0x2007, 0x2008, 0x2009, 0x200A,
   0x2028, 0x2029, 0x202F, 0x205F, 0x3000]

def isBlank (c : Char) : Bool := blankCodes.contains c.toNat

/-- The text without the longest tail whose characters all satisfy `p`. -/
def dropEndWhile (p : Char → Bool) (text : List Char) : List Char :=
  (text.reverse.dropWhile p).reverse

def trimEnd (text : List Char) : List Char := dropEndWhile isBlank text

end StoredProgram.Text
