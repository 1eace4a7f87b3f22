import Ripple.Text.Blank
import Ripple.Text.Lines
import Ripple.Text.Offset

/-!
# Lines of an outline

An outline is written line by line. A line is blank, a comment, a definition of
a name, a use of a name, or a brace that opens or closes a block; anything else
is an error. Blanks around a line do not count.
-/

namespace Ripple
namespace Outline

inductive LineShape where
  | blank
  | comment (text : String)
  | opening
  | closing
  | definition (name : String)
  | usage (name : String)
  /-- None of these; the line without the blanks around it. -/
  | other (text : String)
  deriving DecidableEq, Repr, Inhabited

def isLetter (c : Char) : Bool :=
  ('a' ≤ c && c ≤ 'z') || ('A' ≤ c && c ≤ 'Z') || c = '_'

def isDigit (c : Char) : Bool :=
  '0' ≤ c && c ≤ '9'

/-- A letter or an underscore, then letters, digits and underscores, all of them ASCII. -/
def isIdentifier : List Char → Bool
  | [] => false
  | c :: rest => isLetter c && rest.all fun d => isLetter d || isDigit d

/-- The shape of a line without the blanks around it. -/
def shapeOf (trimmed : List Char) : LineShape :=
  match trimmed with
  | [] => .blank
  | '/' :: '/' :: rest => .comment (String.ofList (Text.trim rest))
  | ['{'] => .opening
  | ['}'] => .closing
  | _ =>
      match Text.words trimmed with
      | [['d', 'e', 'f'], name] =>
          if isIdentifier name then .definition (String.ofList name)
          else .other (String.ofList trimmed)
      | [['u', 's', 'e'], name] =>
          if isIdentifier name then .usage (String.ofList name)
          else .other (String.ofList trimmed)
      | _ => .other (String.ofList trimmed)

/-- A line with its number and the column of its first character that is not blank. -/
structure Line where
  number : Nat
  column : Nat
  shape : LineShape
  deriving DecidableEq, Repr, Inhabited

/-- Columns count bytes, from one. -/
def Line.read (number : Nat) (s : List Char) : Line :=
  ⟨number, Text.byteLength (s.takeWhile Text.isBlank) + 1, shapeOf (Text.trim s)⟩

/-- The lines of a text, numbered from one. -/
def linesOf (content : String) : List Line :=
  ((Text.lines content.toList).zipIdx 1).map fun numbered => Line.read numbered.2 numbered.1

end Outline
end Ripple
