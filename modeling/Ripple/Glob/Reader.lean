import Ripple.Glob.Basic

/-!
# Reading globs

A star matches any stretch; two stars that make up a whole name match any number
of directories. Brackets hold a class, braces hold branches between commas, and
a backslash takes the next character as it is.
-/

namespace Ripple

inductive GlobError where
  | unclosedClass
  | reversedRange (low high : Char)
  | unopenedChoice
  | unclosedChoice
  | danglingEscape
  deriving DecidableEq, Repr, Inhabited

namespace GlobError

def cause : GlobError → String
  | .unclosedClass => "unclosed character class; missing ']'"
  | .reversedRange low high =>
      "invalid range; '" ++ low.toString ++ "' > '" ++ high.toString ++ "'"
  | .unopenedChoice =>
      "unopened alternate group; missing '\x7b' (maybe escape '\x7d' with '[\x7d]'?)"
  | .unclosedChoice =>
      "unclosed alternate group; missing '\x7d' (maybe escape '\x7b' with '[\x7b]'?)"
  | .danglingEscape => "dangling '\\'"

def message (text : String) (e : GlobError) : String :=
  "error parsing glob '" ++ text ++ "': " ++ e.cause

end GlobError

namespace Glob

/-!
# Classes

The first member of a class stands for itself, whatever it is. Later a dash
makes a range of the member before it and the character after it, or stands for
itself at the end.
-/

def rangesFrom (last : Char × Char) (dashed : Bool) :
    List Char → Except GlobError (List (Char × Char))
  | [] => .ok (if dashed then [last, ('-', '-')] else [last])
  | c :: cs =>
      if dashed then
        if c < last.1 then .error (.reversedRange last.1 c)
        else rangesFrom (last.1, c) false cs
      else if c = '-' then rangesFrom last true cs
      else do pure (last :: (← rangesFrom (c, c) false cs))

/-- What stands between the brackets, as far as it goes, and the text from the
closing bracket on. -/
def classBody : List Char → List Char × List Char
  | [] => ([], [])
  | c :: cs => (c :: cs.takeWhile (· ≠ ']'), cs.dropWhile (· ≠ ']'))

theorem length_classBody_le (cs : List Char) : (classBody cs).2.length ≤ cs.length := by
  cases cs with
  | nil => simp [classBody]
  | cons c cs =>
      have h := (List.dropWhile_sublist (fun d => decide (d ≠ ']')) (l := cs)).length_le
      simp only [classBody, List.length_cons]
      omega

def isNegation (c : Char) : Bool :=
  c = '!' || c = '^'

def afterNegation : List Char → List Char
  | c :: cs => if isNegation c then cs else c :: cs
  | [] => []

theorem length_afterNegation_le (cs : List Char) : (afterNegation cs).length ≤ cs.length := by
  cases cs with
  | nil => simp [afterNegation]
  | cons c cs => by_cases h : isNegation c <;> simp [afterNegation, h]

/-- The class that opens before the text, unless its bracket is never closed. -/
def readClass (cs : List Char) : Except GlobError (Option Token) := do
  let (body, rest) := classBody (afterNegation cs)
  match body with
  | [] => pure none
  | c :: body =>
      let ranges ← rangesFrom (c, c) false body
      pure (if rest = [] then none else some (.oneOf (cs.head?.any isNegation) ranges))

/-- The text after the class that opens before it. -/
def afterClass (cs : List Char) : List Char :=
  (classBody (afterNegation cs)).2.tail

theorem length_afterClass_le (cs : List Char) : (afterClass cs).length ≤ cs.length := by
  have h₁ := length_classBody_le (afterNegation cs)
  have h₂ := length_afterNegation_le cs
  simp only [afterClass, List.length_tail]
  omega

/-!
# Levels of braces

Each open brace is a level with the branches that are finished and the tokens of
the one that is being read.
-/

structure Level where
  finished : List (List Token)
  current : List Token

structure Nest where
  level : Level
  outer : List Level

namespace Nest

def empty : Nest := ⟨⟨[], []⟩, []⟩

def isInside (n : Nest) : Bool := !n.outer.isEmpty

def push (n : Nest) (t : Token) : Nest :=
  { n with level := { n.level with current := n.level.current ++ [t] } }

def opened (n : Nest) : Nest := ⟨⟨[], []⟩, n.level :: n.outer⟩

def nextBranch (n : Nest) : Nest :=
  { n with level := ⟨n.level.finished ++ [n.level.current], []⟩ }

def closed? (n : Nest) : Option Nest :=
  match n.outer with
  | [] => none
  | level :: outer =>
      some ((Nest.mk level outer).push (.choice (n.level.finished ++ [n.level.current])))

/-- The token takes the place of the last one, unless that one already stands
for any number of directories. -/
def joinLast (n : Nest) (t : Token) : Nest :=
  match n.level.current.getLast? with
  | some .leading | some .trailing => n
  | _ => Nest.push { n with level := { n.level with current := n.level.current.dropLast } } t

end Nest

/-!
# Reading
-/

/-- Two stars that match directories need a slash, or the start of a branch,
before them. -/
def startsName (n : Nest) (before : Option Char) : Bool :=
  before = some '/' || (n.isInside && (before = some ',' || before = some '\x7b'))

def endsBranch (n : Nest) (c : Char) : Bool :=
  n.isInside && (c = ',' || c = '\x7d')

/-- What two stars stand for, and whether a slash after them belongs to them. -/
def doubleStar (n : Nest) (before : Option Char) (rest : List Char) : Nest × Bool :=
  let plain := (n.push .many).push .many
  if n.level.current.isEmpty then
    match rest with
    | [] => (n.push .leading, false)
    | c :: _ => if c = '/' then (n.push .leading, true) else (plain, false)
  else if !startsName n before then (plain, false)
  else
    match rest with
    | [] => (n.joinLast .trailing, false)
    | c :: _ =>
        if c = '/' then (n.joinLast .between, true)
        else if endsBranch n c then (n.joinLast .trailing, false)
        else (plain, false)

/-- Reads on, from the character before. Once a bracket has been found not to be
closed, brackets stand for themselves. -/
def readFrom (lenient : Bool) (classes : Bool) (before : Option Char) (n : Nest) :
    List Char → Except GlobError Nest
  | [] => .ok n
  | '?' :: cs => readFrom lenient classes (some '?') (n.push .any) cs
  | '*' :: '*' :: cs =>
      let (n, takesSlash) := doubleStar n before cs
      if takesSlash then readFrom lenient classes (some '/') n cs.tail
      else readFrom lenient classes (some '*') n cs
  | '*' :: cs => readFrom lenient classes (some '*') (n.push .many) cs
  | '\x7b' :: cs => readFrom lenient classes (some '\x7b') n.opened cs
  | '\x7d' :: cs =>
      match n.closed? with
      | some n => readFrom lenient classes (some '\x7d') n cs
      | none => .error .unopenedChoice
  | ',' :: cs =>
      readFrom lenient classes (some ',')
        (if n.isInside then n.nextBranch else n.push (.literal ',')) cs
  | '\\' :: c :: cs => readFrom lenient classes (some c) (n.push (.literal c)) cs
  | ['\\'] => .error .danglingEscape
  | '[' :: cs =>
      if classes then
        match readClass cs with
        | .error e => .error e
        | .ok (some t) =>
            have := length_afterClass_le cs
            readFrom lenient classes (some ']') (n.push t) (afterClass cs)
        | .ok none =>
            if lenient then readFrom lenient false (some '[') (n.push (.literal '[')) cs
            else .error .unclosedClass
      else readFrom lenient classes (some '[') (n.push (.literal '[')) cs
  | c :: cs => readFrom lenient classes (some c) (n.push (.literal c)) cs
termination_by cs => cs.length

/-- How globs of one kind are read. -/
structure Style where
  /-- Question marks and stars do not match slashes. -/
  separate : Bool
  /-- A bracket that is never closed stands for itself. -/
  lenient : Bool

/-- The glob that a text spells. -/
def parse (style : Style) (text : String) : Except GlobError Glob := do
  let n ← readFrom style.lenient true none .empty text.toList
  if n.isInside then throw .unclosedChoice
  pure ⟨style.separate, n.level.current⟩

end Glob
end Ripple
