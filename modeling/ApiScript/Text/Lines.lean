/-!
# Lines of a text

A line ends at a line feed, together with a carriage return right before it. What follows the last
line feed is a line only if it is not empty.
-/
namespace ApiScript.Text

/-- Removes a carriage return that was read last. -/
def dropReturn : List Char → List Char
  | '\r' :: read => read
  | read => read

/-- The lines of a text of which the beginning of a line is already read, last character first. -/
def linesFrom (read : List Char) : List Char → List (List Char)
  | [] => if read = [] then [] else [read.reverse]
  | c :: cs =>
    if c = '\n' then (dropReturn read).reverse :: linesFrom [] cs else linesFrom (c :: read) cs

def lines (s : String) : List String := (linesFrom [] s.toList).map String.ofList

end ApiScript.Text
