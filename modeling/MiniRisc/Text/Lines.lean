import MiniRisc.Text.Blank

/-!
# Lines of a text

A line ends at a newline, and a carriage return before the newline belongs to the ending. A last
line without a newline is a line if it is not empty, and keeps a carriage return at its end.
-/

namespace MiniRisc.Text

/-- A line without the carriage return at its end, if there is one. -/
def dropReturn (line : List Char) : List Char :=
  if line.getLast? = some '\r' then line.dropLast else line

/-- The lines among the pieces between newlines; only the last piece has no newline after it. -/
def linesOfPieces : List (List Char) → List (List Char)
  | [] => []
  | [last] => if last.isEmpty then [] else [last]
  | line :: rest => dropReturn line :: linesOfPieces rest

/-- The lines of a text without their endings. -/
def lines (text : List Char) : List (List Char) :=
  linesOfPieces (pieces (· == '\n') text)

end MiniRisc.Text
