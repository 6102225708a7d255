import StoredProgram.Operation

/-!
Tokens of a source line: keywords, numbers not yet read, quoted texts, comments, and
whatever else stands there.
-/
namespace StoredProgram

inductive Keyword where
  | origin
  | finish
  | data
  | load
  | put
  | get
  | arithmetic (operation : Operation)
  | goto
  | nzgoto
  | zgoto
  | print
deriving DecidableEq

namespace Keyword

def all : List Keyword :=
  [origin, finish, data, load, put, get, arithmetic .add, arithmetic .subtract,
   arithmetic .multiply, arithmetic .divide, goto, nzgoto, zgoto, print]

def spelling : Keyword → String
  | origin => "org"
  | finish => "end"
  | data => "data"
  | load => "load"
  | put => "put"
  | get => "get"
  | arithmetic .add => "add"
  | arithmetic .subtract => "subtract"
  | arithmetic .multiply => "multiply"
  | arithmetic .divide => "divide"
  | goto => "goto"
  | nzgoto => "nzgoto"
  | zgoto => "zgoto"
  | print => "print"

/-- The keyword with a spelling; case matters. -/
def find? (word : String) : Option Keyword := all.find? fun k => k.spelling = word

theorem find?_spelling (k : Keyword) : find? k.spelling = some k := by
  rcases k with _ | _ | _ | _ | _ | _ | operation | _ | _ | _ | _
  case arithmetic => cases operation <;> decide
  all_goals decide

theorem spelling_of_find? {word : String} {k : Keyword} (h : find? word = some k) :
    k.spelling = word := by
  simpa using List.find?_some h

end Keyword

/-- A text is held without its quotes and a comment without its slashes. -/
inductive Token where
  | unknown (content : String)
  | keyword (keyword : Keyword)
  | number (content : String)
  | text (content : String)
  | comment (content : String)
deriving DecidableEq

namespace Token

def display : Token → String
  | unknown content => content
  | keyword k => k.spelling
  | number content => content
  | text content => "\"" ++ content ++ "\""
  | comment content => "//" ++ content

def isComment : Token → Bool
  | comment _ => true
  | _ => false

def startsNumber (c : Char) : Bool := c.isDigit || ['-', '+', '.'].contains c

/-- The token of a word. Whether a number can be read is found out later: its first
character alone makes it one. -/
def ofWord (word : String) : Token :=
  match Keyword.find? word with
  | some k => keyword k
  | none => if word.toList.head?.any startsNumber then number word else unknown word

end Token

end StoredProgram
