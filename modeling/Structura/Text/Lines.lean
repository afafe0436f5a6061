/-!
The lines of a text. A line feed ends a line, and a carriage return directly before it belongs to
the line break. What follows the last line feed is a line of its own unless it is empty.
-/

namespace Structura.Text

def consLine (c : Char) : List (List Char) → List (List Char)
  | [] => [[c]]
  | line :: lines => (c :: line) :: lines

def splitLines : List Char → List (List Char)
  | [] => []
  | '\r' :: '\n' :: rest => [] :: splitLines rest
  | '\n' :: rest => [] :: splitLines rest
  | c :: rest => consLine c (splitLines rest)

def lines (text : String) : List String :=
  (splitLines text.toList).map String.ofList

end Structura.Text
