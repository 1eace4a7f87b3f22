/-!
# Lines

A text falls into lines at line feeds. A carriage return directly before a line
feed belongs to the line's end, and a line feed at the very end of the text
starts no further line.
-/

namespace Ripple
namespace Text

def dropReturn (line : List Char) : List Char :=
  if line.getLast? = some '\r' then line.dropLast else line

def closeLines : List (List Char) → List (List Char)
  | [] => []
  | [last] => if last.isEmpty then [] else [last]
  | line :: rest => dropReturn line :: closeLines rest

def lines (s : List Char) : List (List Char) :=
  closeLines (s.splitOn '\n')

end Text
end Ripple
