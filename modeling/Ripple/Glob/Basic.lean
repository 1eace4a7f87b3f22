import Ripple.Text.Offset

/-!
# Globs

A glob is a list of tokens that describes texts, here paths with slashes between
their names. Texts are matched byte by byte: a question mark and a class stand
for one byte each.
-/

namespace Ripple
namespace Glob

/-- The bytes of a character. -/
def bytesOf (c : Char) : List UInt8 :=
  (String.singleton c).toUTF8.data.toList

inductive Token where
  /-- Exactly this character. -/
  | literal (c : Char)
  /-- One byte. -/
  | any
  /-- Any stretch of bytes. -/
  | many
  /-- Any number of directories at the beginning. -/
  | leading
  /-- A slash, any number of directories, and the slash after them. -/
  | between
  /-- A slash and everything below. -/
  | trailing
  /-- One byte inside, or with `negated` outside, of some ranges of characters. -/
  | oneOf (negated : Bool) (ranges : List (Char × Char))
  /-- One of several token lists. -/
  | choice (branches : List (List Token))
  deriving Repr, Inhabited

/-!
# What is left after a token

A token can match several initial parts of a text. Its meaning is the list of
the rests that they leave. Where slashes separate, question marks and stars do
not match them.
-/

def slash : UInt8 := 47

/-- The bytes that a range of characters covers. A character of several bytes
counts byte by byte, so only the bytes next to the dash form a range. -/
def covers (range : Char × Char) (b : UInt8) : Bool :=
  let low := bytesOf range.1
  let high := bytesOf range.2
  if range.1 = range.2 then low.contains b
  else
    low.dropLast.contains b || high.tail.contains b ||
      (low.getLast?.any (· ≤ b) && high.head?.any (b ≤ ·))

def suffixes : List UInt8 → List (List UInt8)
  | [] => [[]]
  | b :: rest => (b :: rest) :: suffixes rest

/-- What follows the slashes of a text. -/
def afterSlashes : List UInt8 → List (List UInt8)
  | [] => []
  | b :: rest => if b = slash then rest :: afterSlashes rest else afterSlashes rest

/-- The rests after a stretch without slashes. -/
def withinName : List UInt8 → List (List UInt8)
  | [] => [[]]
  | b :: rest => if b = slash then [b :: rest] else (b :: rest) :: withinName rest

def afterText : List UInt8 → List UInt8 → List (List UInt8)
  | [], s => [s]
  | _ :: _, [] => []
  | b :: bs, c :: s => if b = c then afterText bs s else []

def afterByte (test : UInt8 → Bool) : List UInt8 → List (List UInt8)
  | [] => []
  | b :: rest => if test b then [rest] else []

mutual

/-- A choice all of whose branches have no content. -/
def Token.isHollow : Token → Bool
  | .choice branches => areHollow branches
  | .literal _ | .any | .many | .leading | .between | .trailing | .oneOf _ _ => false

/-- A list of tokens without content. -/
def isHollow : List Token → Bool
  | [] => true
  | t :: ts => t.isHollow && isHollow ts

def areHollow : List (List Token) → Bool
  | [] => true
  | b :: bs => isHollow b && areHollow bs

end

mutual

def Token.rests (separate : Bool) : Token → List UInt8 → List (List UInt8)
  | .literal c, s => afterText (bytesOf c) s
  | .any, s => afterByte (fun b => !(separate && b = slash)) s
  | .many, s => if separate then withinName s else suffixes s
  | .leading, s => s :: afterSlashes s
  | .between, s =>
      match s with
      | b :: rest => if b = slash then rest :: afterSlashes rest else []
      | [] => []
  | .trailing, s =>
      match s with
      | b :: rest => if b = slash then suffixes rest else []
      | [] => []
  | .oneOf negated ranges, s => afterByte (fun b => (ranges.any (covers · b)) != negated) s
  | .choice branches, s =>
      if areHollow branches then [s] else branchRests separate branches s

def listRests (separate : Bool) : List Token → List UInt8 → List (List UInt8)
  | [], s => [s]
  | t :: ts, s => ((t.rests separate s).flatMap (listRests separate ts)).eraseDups

/-- Branches without content do not count. -/
def branchRests (separate : Bool) : List (List Token) → List UInt8 → List (List UInt8)
  | [], _ => []
  | b :: bs, s =>
      let later := branchRests separate bs s
      if isHollow b then later else listRests separate b s ++ later

end

end Glob

/-!
# Matching
-/

/-- A pattern for paths, and whether its stars stop at slashes. -/
structure Glob where
  separate : Bool
  tokens : List Glob.Token
  deriving Repr, Inhabited

namespace Glob

/-- A glob matches the texts that it can use up. A glob of nothing but leading
directories matches everything. -/
def matchesBytes (g : Glob) (s : List UInt8) : Bool :=
  match g.tokens with
  | [.leading] => true
  | ts => (listRests g.separate ts s).contains []

def matchesText (g : Glob) (s : String) : Bool :=
  g.matchesBytes s.toUTF8.data.toList

end Glob
end Ripple
