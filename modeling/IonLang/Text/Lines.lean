/-!
# Lines of a text

A line ends at a line feed, and a carriage return just before that line feed belongs to the line
end. What follows the last line feed is a line only if it is not empty, and there a carriage
return at the end is part of the line.
-/

namespace IonLang.Text

/-- Drops the carriage return of a line end from a line that is held back to front. -/
def dropReturn : List Char → List Char
  | '\r' :: line => line
  | line => line

/-- The lines of a text whose current line, back to front, already holds `line`. -/
def linesFrom (line : List Char) : List Char → List (List Char)
  | [] => if line.isEmpty then [] else [line.reverse]
  | c :: rest =>
    if c = '\n' then (dropReturn line).reverse :: linesFrom [] rest
    else linesFrom (c :: line) rest

def lines (text : String) : List String :=
  (linesFrom [] text.toList).map String.ofList

end IonLang.Text
