import Ripple.Glob.Reader
import Ripple.Text.Blank
import Ripple.Text.Lines
import Ripple.Text.Readable

/-!
# Ignore rules

A line of an ignore file is a glob for paths below the directory of the file.
The last rule that matches a path decides about it. A rule that starts with an
exclamation mark keeps what an earlier rule ignored.
-/

namespace Ripple
namespace Ignore

structure Rule where
  glob : Glob
  keeps : Bool
  /-- A rule that ends in a slash is about directories alone. -/
  directoriesOnly : Bool
  deriving Repr, Inhabited

inductive Verdict where
  | ignored
  | kept
  deriving DecidableEq, Repr, Inhabited

namespace Rule

def style : Glob.Style := ⟨true, true⟩

/-- Blanks at the end of a line do not count, unless the last one is escaped. -/
def trimLine (line : List Char) : List Char :=
  if line.reverse.take 2 = [' ', '\\'] then line else Text.trimEnd line

/-- What the first characters of a line say: whether the rule keeps, whether its
glob is tied to the directory of the file, and the rest. -/
def splitStart (line : List Char) : Bool × Bool × List Char :=
  let slashed (keeps : Bool) (rest : List Char) :=
    match rest with
    | '/' :: rest => (keeps, true, rest)
    | rest => (keeps, false, rest)
  match line with
  | '\\' :: '!' :: rest => (false, false, '!' :: rest)
  | '\\' :: '#' :: rest => (false, false, '#' :: rest)
  | '!' :: rest => slashed true rest
  | rest => slashed false rest

/-- Takes a slash off the end, also an escaped one, and says whether it was there. -/
def splitEnd (body : List Char) : Bool × List Char :=
  match body.reverse with
  | '/' :: '\\' :: rest => (true, rest.reverse)
  | '/' :: rest => (true, rest.reverse)
  | _ => (false, body)

def anywhere : List Char := ['*', '*', '/']

/-- Without a slash a glob is about names at any depth. Two stars at the end
match what is inside a directory, and not the directory. -/
def globText (tied : Bool) (body : List Char) : List Char :=
  let found :=
    if !tied && !body.contains '/' && body ≠ ['*', '*'] then anywhere ++ body else body
  if ['/', '*', '*'].isSuffixOf found then found ++ ['/', '*'] else found

/-- The rule of a line, if it holds one that can be read. -/
def ofLine? (line : List Char) : Option Rule :=
  if line.head? = some '#' then none
  else
    let line := trimLine line
    if line.isEmpty then none
    else
      let (keeps, tied, rest) := splitStart line
      let (directoriesOnly, body) := splitEnd rest
      match Glob.parse style (String.ofList (globText tied body)) with
      | .ok glob => some ⟨glob, keeps, directoriesOnly⟩
      | .error _ => none

def applies (r : Rule) (path : String) (isDirectory : Bool) : Bool :=
  (!r.directoriesOnly || isDirectory) && r.glob.matchesText path

def verdict (r : Rule) : Verdict :=
  if r.keeps then .kept else .ignored

end Rule

/-- What the rules say about a path. -/
def verdict? (rules : List Rule) (path : String) (isDirectory : Bool) : Option Verdict :=
  (rules.reverse.find? fun r => r.applies path isDirectory).map Rule.verdict

/-!
# Ignore files
-/

/-- Marks of the byte order at the beginning of a file do not count, and the
file is read up to the first line that is not text. -/
def rulesOf (bytes : ByteArray) : List Rule :=
  (Text.lines ((Text.readable bytes).toList.dropWhile Text.isMark)).filterMap Rule.ofLine?

end Ignore
end Ripple
