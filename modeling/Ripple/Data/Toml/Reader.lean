import Ripple.Data.Toml.Scalar
import Ripple.Data.Toml.Section

/-!
# Reading TOML

A file is read line by line: headers open sections, and a key with its value
goes into the section that is open. Lists may span lines, inline tables may not.
Lists and inline tables nest less than eighty deep, and keys have less than
eighty parts.
-/

namespace Ripple
namespace Data
namespace Toml

open Json (Reader)

def depthLimit : Nat := 80

def isGap (c : Char) : Bool :=
  c = ' ' || c = '\t'

def skipGap (s : List Char) : List Char :=
  s.dropWhile isGap

/-- A character that may stand in a comment. -/
def isPlain (c : Char) : Bool :=
  c = '\t' || (0x20 ≤ c.toNat && c.toNat ≠ 0x7F)

/-- The rest after a line's end, which is a line feed, alone or after a carriage return. -/
def newline? : List Char → Option (List Char)
  | '\n' :: rest => some rest
  | '\r' :: '\n' :: rest => some rest
  | _ => none

/-- Nothing but a comment may remain on a line. -/
def endLine (s : List Char) : Option (List Char) :=
  let s := match skipGap s with
    | '#' :: rest => rest.dropWhile isPlain
    | rest => rest
  match s with
  | [] => some []
  | s => newline? s

/-- Gaps, comments and line ends, as they may stand between the items of a list. -/
def skipLines : Nat → List Char → List Char
  | 0, s => s
  | n + 1, s =>
      match skipGap s with
      | '#' :: rest =>
          match newline? (rest.dropWhile isPlain) with
          | some rest => skipLines n rest
          | none => '#' :: rest
      | s =>
          match newline? s with
          | some rest => skipLines n rest
          | none => s

/-!
# Quoted texts
-/

def scalarValue? (ds : List Char) : Option Char := do
  let ns ← ds.mapM Json.hexValue?
  let n := ns.foldl (fun n d => 16 * n + d) 0
  if n < 0xD800 ∨ (0xE000 ≤ n ∧ n < 0x110000) then some (Char.ofNat n) else none

/-- The character of an escape, after its backslash. -/
def escape : Reader Char
  | 'b' :: rest => some ('\x08', rest)
  | 't' :: rest => some ('\t', rest)
  | 'n' :: rest => some ('\n', rest)
  | 'f' :: rest => some ('\x0c', rest)
  | 'r' :: rest => some ('\r', rest)
  | '"' :: rest => some ('"', rest)
  | '\\' :: rest => some ('\\', rest)
  | 'u' :: rest => do
      if (rest.take 4).length < 4 then none
      else (scalarValue? (rest.take 4)).map fun c => (c, rest.drop 4)
  | 'U' :: rest => do
      if (rest.take 8).length < 8 then none
      else (scalarValue? (rest.take 8)).map fun c => (c, rest.drop 8)
  | _ => none

/-- The rest of a text on one line; escapes count in texts with double quotes. -/
def lineText (mark : Char) : Nat → List Char → Reader String
  | 0, _, _ => none
  | _ + 1, _, [] => none
  | n + 1, taken, c :: rest =>
      if c = mark then some (String.ofList taken.reverse, rest)
      else if c = '\\' ∧ mark = '"' then do
        let (c, rest) ← escape rest
        lineText mark n (c :: taken) rest
      else if isPlain c then lineText mark n (c :: taken) rest
      else none

/-- Gaps and line ends. -/
def skipBlankLines : List Char → List Char
  | '\n' :: rest => skipBlankLines rest
  | '\r' :: '\n' :: rest => skipBlankLines rest
  | c :: rest => if isGap c then skipBlankLines rest else c :: rest
  | [] => []

/-- A backslash at the end of a line swallows everything up to the next visible character. -/
def foldedLine? (s : List Char) : Option (List Char) :=
  (newline? (skipGap s)).map skipBlankLines

/-- The rest of a text over several lines. Up to two marks may stand in it, also
right before the three that close it. -/
def blockText (mark : Char) : Nat → List Char → Reader String
  | 0, _, _ => none
  | _ + 1, _, [] => none
  | n + 1, taken, c :: rest =>
      if c = mark then
        let run := ((c :: rest).takeWhile (· = mark)).length
        if run < 3 then blockText mark n (c :: taken) rest
        else
          let marks := min (run - 3) 2
          some (String.ofList (List.replicate marks mark ++ taken).reverse,
            (c :: rest).drop (marks + 3))
      else if c = '\\' ∧ mark = '"' then
        match foldedLine? rest with
        | some rest => blockText mark n taken rest
        | none => do
            let (c, rest) ← escape rest
            blockText mark n (c :: taken) rest
      else match newline? (c :: rest) with
        | some rest => blockText mark n ('\n' :: taken) rest
        | none => if isPlain c then blockText mark n (c :: taken) rest else none

/-- The text after its first mark. -/
def quoted (mark : Char) : Reader String := fun s =>
  match s with
  | a :: b :: rest =>
      if a = mark ∧ b = mark then
        let body := (newline? rest).getD rest
        blockText mark (body.length + 1) [] body
      else lineText mark (s.length + 1) [] s
  | s => lineText mark (s.length + 1) [] s

/-!
# Keys
-/

def isBareKey (c : Char) : Bool :=
  c.isAlphanum || c = '_' || c = '-'

def simpleKey : Reader String
  | '"' :: rest => lineText '"' (rest.length + 1) [] rest
  | '\'' :: rest => lineText '\'' (rest.length + 1) [] rest
  | s =>
      let word := s.takeWhile isBareKey
      if word.isEmpty then none else some (String.ofList word, s.drop word.length)

def keyParts : Nat → Reader (List String)
  | 0, _ => none
  | n + 1, s => do
      let (part, rest) ← simpleKey (skipGap s)
      match skipGap rest with
      | '.' :: rest => do
          let (parts, rest) ← keyParts n rest
          some (part :: parts, rest)
      | rest => some ([part], rest)

def key : Reader (List String) := fun s => do
  let (parts, rest) ← keyParts (s.length + 1) s
  if parts.length < depthLimit then some (parts, rest) else none

/-!
# Values

The first argument bounds the number of nested readers, for which the length of
the text is enough; the second is how much deeper lists and tables may nest.
-/

mutual

def value : Nat → Nat → Reader Value
  | 0, _, _ => none
  | n + 1, depth, s =>
      match s with
      | '"' :: rest => (quoted '"' rest).map fun (t, rest) => (.text t, rest)
      | '\'' :: rest => (quoted '\'' rest).map fun (t, rest) => (.text t, rest)
      | '[' :: rest =>
          if depth ≤ 1 then none
          else (items n (depth - 1) [] rest).map fun (vs, rest) => (.list vs, rest)
      | '\x7b' :: rest =>
          if depth ≤ 1 then none
          else match skipGap rest with
            | '\x7d' :: rest => some (.object [], rest)
            | rest => (pairs n (depth - 1) .headed rest).map fun (s, rest) => (s.toValue, rest)
      | s => bareScalar s

def items : Nat → Nat → List Value → Reader (List Value)
  | 0, _, _, _ => none
  | n + 1, depth, taken, s =>
      match skipLines (s.length + 1) s with
      | ']' :: rest => some (taken.reverse, rest)
      | s => do
          let (v, rest) ← value n depth s
          match skipLines (rest.length + 1) rest with
          | ',' :: rest => items n depth (v :: taken) rest
          | ']' :: rest => some ((v :: taken).reverse, rest)
          | _ => none

def pairs : Nat → Nat → Section → Reader Section
  | 0, _, _, _ => none
  | n + 1, depth, taken, s => do
      let (path, rest) ← key s
      let '=' :: rest := rest | none
      let (v, rest) ← value n depth (skipGap rest)
      let taken ← taken.addValue path v
      match skipGap rest with
      | ',' :: rest => pairs n depth taken rest
      | '\x7d' :: rest => some (taken, rest)
      | _ => none

end

/-!
# Files
-/

/-- What has been read: the whole, and the header that is open. -/
structure Draft where
  whole : Section
  header : List String

def headerLine (d : Draft) : List Char → Option (Draft × List Char)
  | '[' :: rest => do
      let (path, rest) ← key rest
      let ']' :: ']' :: rest := rest | none
      let rest ← endLine rest
      let whole ← d.whole.openNext path
      some (⟨whole, path⟩, rest)
  | rest => do
      let (path, rest) ← key rest
      let ']' :: rest := rest | none
      let rest ← endLine rest
      let whole ← d.whole.openHeader path
      some (⟨whole, path⟩, rest)

def keyLine (d : Draft) (s : List Char) : Option (Draft × List Char) := do
  let (path, rest) ← key s
  let '=' :: rest := rest | none
  let rest := skipGap rest
  let (v, rest) ← value (rest.length + 1) depthLimit rest
  let rest ← endLine rest
  let whole ← d.whole.within d.header (·.addValue path v)
  some (⟨whole, d.header⟩, rest)

def readLines : Nat → Draft → List Char → Option Draft
  | 0, _, _ => none
  | n + 1, d, s =>
      match skipGap s with
      | [] => some d
      | '[' :: rest => do
          let (d, rest) ← headerLine d rest
          readLines n d rest
      | s =>
          match endLine s with
          | some rest => readLines n d rest
          | none => do
              let (d, rest) ← keyLine d s
              readLines n d rest

/-- The object that a file holds. A byte order mark may stand in front. -/
def parse (s : String) : Option Value := do
  let body := match s.toList with
    | '\uFEFF' :: rest => rest
    | s => s
  let d ← readLines (body.length + 2) ⟨.headed, []⟩ body
  some d.whole.toValue

end Toml
end Data
end Ripple
