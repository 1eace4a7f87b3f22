import Ripple.Environment.Basic
import Ripple.Text.Blank

/-!
# Assignments

An assignment is a name, an equals sign and a value, after the word `export` if
one likes. A value may have parts in quotes, escapes, and names after a dollar
sign that stand for the values of earlier assignments. After a blank outside
quotes only a comment may follow.
-/

namespace Ripple
namespace Environment

structure Assignment where
  name : String
  value : String
  deriving DecidableEq, Repr, Inhabited

/-!
# Values
-/

/-- Where the reader of a value stands. With `quoted` it is between double quotes. -/
inductive Stance where
  | plain (quoted : Bool)
  /-- Between single quotes. -/
  | strong
  /-- After a backslash. -/
  | escaped (quoted : Bool)
  /-- In a name after a dollar sign. -/
  | naming (quoted : Bool) (name : List Char)
  /-- In a name between braces. -/
  | braced (quoted : Bool) (name : List Char)
  /-- After a blank. -/
  | ending
  /-- In a comment. -/
  | finished
  deriving DecidableEq, Repr, Inhabited

structure Progress where
  stance : Stance
  output : List Char
  deriving DecidableEq, Repr, Inhabited

namespace Progress

def start : Progress := ⟨.plain false, []⟩

def become (p : Progress) (s : Stance) : Progress := { p with stance := s }

def emit (p : Progress) (c : Char) : Progress := { p with output := p.output ++ [c] }

def substitute (e : Environment) (p : Progress) (name : List Char) : Progress :=
  { p with output := p.output ++ (e.valueOf (String.ofList name)).toList }

/-- Letters and digits, also from beyond ASCII. -/
def isNameCharacter (c : Char) : Bool :=
  c.isAlphanum || (0xC0 ≤ c.toNat && c.toNat < 0x2000 && c ≠ '×' && c ≠ '÷')

def escapable : List Char := ['\\', '\'', '"', '$', ' ']

def isGap (c : Char) : Bool :=
  c = ' ' || c = '\t'

/-- Reads one more character, unless it cannot stand there. -/
def step (e : Environment) (p : Progress) (c : Char) : Option Progress :=
  match p.stance with
  | .finished => some p
  | .ending =>
      if isGap c then some p
      else if c = '#' then some (p.become .finished)
      else none
  | .escaped quoted =>
      if c ∈ escapable then some ((p.emit c).become (.plain quoted))
      else if c = 'n' then some ((p.emit '\n').become (.plain quoted))
      else none
  | .strong => some (if c = '\'' then p.become (.plain false) else p.emit c)
  | .naming quoted name =>
      if isNameCharacter c then some (p.become (.naming quoted (name ++ [c])))
      else if c = '\x7b' && name.isEmpty then some (p.become (.braced quoted []))
      else
        let p := p.substitute e name
        some (if c = '$' then p.become (.naming quoted []) else (p.emit c).become (.plain quoted))
  | .braced quoted name =>
      some (if c = '\x7d' then (p.substitute e name).become (.plain quoted)
        else p.become (.braced quoted (name ++ [c])))
  | .plain quoted =>
      if c = '$' then some (p.become (.naming quoted []))
      else if c = '"' then some (p.become (.plain !quoted))
      else if c = '\\' then some (p.become (.escaped quoted))
      else if quoted then some (p.emit c)
      else if c = '\'' then some (p.become .strong)
      else if isGap c then some (p.become .ending)
      else some (p.emit c)

/-- The value, if no quotes or braces are left open. -/
def finish (e : Environment) (p : Progress) : Option (List Char) :=
  match p.stance with
  | .plain quoted | .escaped quoted => if quoted then none else some p.output
  | .naming quoted name => if quoted then none else some (p.substitute e name).output
  | .ending | .finished => some p.output
  | .strong | .braced _ _ => none

end Progress

def readValue (e : Environment) (s : List Char) : Option String := do
  let p ← s.foldlM (Progress.step e) .start
  pure (String.ofList (← p.finish e))

/-!
# Lines
-/

def startsName (c : Char) : Bool :=
  c.isAlpha || c = '_'

def continuesName (c : Char) : Bool :=
  c.isAlphanum || c = '_' || c = '.'

/-- A name and the rest of the line after the blanks behind it. -/
def readName (s : List Char) : Option (List Char × List Char) :=
  if s.head?.any startsName then
    some (s.takeWhile continuesName, Text.trimStart (s.dropWhile continuesName))
  else none

def afterEquals : List Char → Option (List Char)
  | '=' :: rest => some (Text.trimStart rest)
  | _ => none

/-- The word `export` before a name does not count. -/
def readTarget (s : List Char) : Option (List Char × List Char) := do
  let (name, rest) ← readName s
  match afterEquals rest with
  | some value => pure (name, value)
  | none =>
      if name ≠ ['e', 'x', 'p', 'o', 'r', 't'] then none
      else
        let (name, rest) ← readName rest
        pure (name, ← afterEquals rest)

def isComment (s : List Char) : Bool :=
  s.isEmpty || s.head? = some '#'

/-- What a line says: nothing, or one assignment; it may also be malformed. -/
def readLine (e : Environment) (line : List Char) : Option (Option Assignment) := do
  let s := Text.trim line
  if isComment s then pure none
  else
    let (name, value) ← readTarget s
    let value ← if isComment value then pure "" else readValue e value
    pure (some ⟨String.ofList name, value⟩)

end Environment
end Ripple
