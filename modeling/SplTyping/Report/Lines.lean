namespace SplTyping

/-!
# Lines of a text

A line ends at a line feed, and one carriage return directly before the line
feed belongs to the ending. Text after the last line feed is a line of its own,
unless it is empty.
-/

namespace Report

/-- A line, written backwards, without a carriage return at its end. -/
def dropReturn : List Char → List Char
  | '\r' :: line => line
  | line => line

/--
The lines of a text, where `current` holds backwards what has been read of the
line that is not finished yet.
-/
def linesFrom (current : List Char) : List Char → List (List Char)
  | [] => if current.isEmpty then [] else [current.reverse]
  | '\n' :: rest => (dropReturn current).reverse :: linesFrom [] rest
  | char :: rest => linesFrom (char :: current) rest

/-- The lines of a text, without their endings. -/
def lines (text : String) : List String :=
  (linesFrom [] text.toList).map String.ofList

end Report

end SplTyping
