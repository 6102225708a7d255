import StoredProgram.Number.Basic

/-!
Print templates. A template is a text in which percent signs open conversions; all
conversions of a template render the same number. This module has the data, the
others split a template into segments and render them.
-/
namespace StoredProgram

/-- A template is its text: how it renders follows from that alone. -/
structure Template where
  text : String
deriving DecidableEq

/-- How a conversion writes a number: with decimal places, with an exponent, in the
shorter of these forms, or cut off to an integer. -/
inductive Style where
  | fixed
  | scientific
  | general
  | integer
deriving DecidableEq

/-- The flags of a conversion; a repeated flag counts once. -/
structure Flags where
  left : Bool
  plus : Bool
  space : Bool
  zero : Bool
  alternate : Bool
deriving DecidableEq

structure Conversion where
  flags : Flags
  width : Option Nat
  precision : Option Nat
  style : Style
  upper : Bool
deriving DecidableEq

/-- What a segment of a template contributes to the rendering. -/
inductive Piece where
  | literal (text : List Char)
  | conversion (conversion : Conversion)
deriving DecidableEq

/-- A part of a template's text together with what it stands for. -/
structure Segment where
  source : List Char
  piece : Piece
deriving DecidableEq

end StoredProgram
