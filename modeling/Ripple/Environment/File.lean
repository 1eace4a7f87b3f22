import Ripple.Disk.Basic
import Ripple.Environment.Assignment
import Ripple.Text.Readable

/-!
# Environment files

A file of assignments is read up to the first malformed one. A value in quotes
may go over several lines. The file is looked for where the user stands and then
upwards.
-/

namespace Ripple
namespace Environment

/-!
# Lines that belong together
-/

/-- What is still open at some point of a line. -/
inductive Opening where
  | nothing
  | escape
  | single
  | singleEscape
  | double
  | doubleEscape
  /-- After a blank a comment may begin. -/
  | gap
  deriving DecidableEq, Repr, Inhabited

namespace Opening

def opened (c : Char) : Opening :=
  if c = '\\' then .escape
  else if c = '"' then .double
  else if c = '\'' then .single
  else .nothing

def next (o : Opening) (c : Char) : Opening :=
  match o with
  | .gap => opened c
  | .nothing => if Text.isBlank c && c ≠ '\n' && c ≠ '\r' then .gap else opened c
  | .escape => .nothing
  | .double => if c = '\\' then .doubleEscape else if c = '"' then .nothing else .double
  | .doubleEscape => .double
  | .single => if c = '\\' then .singleEscape else if c = '\'' then .nothing else .single
  | .singleEscape => .single

/-- What stands before the comment of a line. -/
def beforeComment? (o : Opening) : List Char → Option (List Char)
  | [] => none
  | c :: cs =>
      if o = .gap && c = '#' then some []
      else (beforeComment? (o.next c) cs).map (c :: ·)

end Opening

/-- The lines of a text, each with the line feed that ends it. -/
def endedLines (s : List Char) : List (List Char) :=
  let pieces := s.splitOn '\n'
  pieces.dropLast.map (· ++ ['\n']) ++ (pieces.getLast?.toList.filter fun last => !last.isEmpty)

/-- Joins the lines over which quotes stay open. The last one is missing if
something is open at the end of the file. -/
def joinLines (before : List Char) (o : Opening) : List (List Char) → List (Option (List Char))
  | [] => if o = .nothing then [] else [none]
  | line :: rest =>
      let joined := before ++ line
      if (Text.trimStart joined).head? = some '#' then some [] :: joinLines [] .nothing rest
      else
        match o.beforeComment? line with
        | some kept => some (before ++ kept) :: joinLines [] .nothing rest
        | none =>
            let o := line.foldl Opening.next o
            if o = .nothing then some joined :: joinLines [] .nothing rest
            else joinLines joined o rest

/-!
# Reading
-/

/-- Adds what the lines say, up to the first that is malformed. -/
def addLines (e : Environment) : List (Option (List Char)) → Environment
  | [] => e
  | none :: _ => e
  | some line :: rest =>
      match readLine e line with
      | none => e
      | some none => e.addLines rest
      | some (some a) => (e.add a.name a.value).addLines rest

/-- Adds the assignments of a file; a mark of the byte order may come first. -/
def addFile (e : Environment) (bytes : ByteArray) : Environment :=
  let text :=
    match (Text.readable bytes).toList with
    | c :: cs => if Text.isMark c then cs else c :: cs
    | [] => []
  e.addLines (joinLines [] .nothing (endedLines text))

def fileName : String := ".env"

/-- The nearest environment file, going up. -/
def nearestFile? (d : Disk) : Option ByteArray :=
  (List.range (d.here.length + 1)).reverse.findSome? fun depth =>
    d.file? (d.here.take depth ++ [fileName])

def withNearestFile (e : Environment) (d : Disk) : Environment :=
  match nearestFile? d with
  | some bytes => e.addFile bytes
  | none => e

end Environment
end Ripple
