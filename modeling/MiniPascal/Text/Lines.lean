/-!
# Lines of a text

A line ends with a line feed, and with it goes a carriage return directly before it.  What follows
the last line feed is a line only if it is not empty.
-/

namespace MiniPascal.Text

def trimReturn (line : List Char) : List Char :=
  if line.getLast? = some '\r' then line.dropLast else line

/-- The lines of a text behind the characters of its first line that have been passed, the last of
them in front. -/
def linesFrom : List Char → List Char → List (List Char)
  | [], [] => []
  | passed, [] => [passed.reverse]
  | passed, '\n' :: rest => trimReturn passed.reverse :: linesFrom [] rest
  | passed, char :: rest => linesFrom (char :: passed) rest

def lines (text : String) : List String := (linesFrom [] text.toList).map String.ofList

def line? (text : String) : Nat → Option String
  | 0 => none
  | index + 1 => (lines text)[index]?

end MiniPascal.Text
