/-!
Splitting a text into lines. A line feed ends a line, a carriage return right
before it belongs to the line end, and a line feed at the very end of the text
opens no further line.
-/
namespace StoredProgram.Text

def lines : List Char → List (List Char)
  | [] => []
  | c :: rest =>
    if c = '\n' then [] :: lines rest
    else if c = '\r' ∧ rest.head? = some '\n' then lines rest
    else match lines rest with
      | [] => [[c]]
      | line :: more => (c :: line) :: more

end StoredProgram.Text
