import Ripple.Data.Value
import Ripple.Decimal.Basic
import Ripple.Number

/-!
# Reading JSON

Each reader takes what it accepts from the front of the text and gives the rest.
A number without point or exponent is a whole number as long as it fits 64 bits,
with or without sign, and a fraction otherwise.
-/

namespace Ripple
namespace Data
namespace Json

abbrev Reader (α : Type) := List Char → Option (α × List Char)

def skipBlanks (s : List Char) : List Char :=
  s.dropWhile fun c => c = ' ' || c = '\n' || c = '\r' || c = '\t'

def hexValue? (c : Char) : Option Nat :=
  if '0' ≤ c ∧ c ≤ '9' then some (c.toNat - '0'.toNat)
  else if 'a' ≤ c ∧ c ≤ 'f' then some (c.toNat - 'a'.toNat + 10)
  else if 'A' ≤ c ∧ c ≤ 'F' then some (c.toNat - 'A'.toNat + 10)
  else none

/-!
# Texts
-/

def fourHex : Reader Nat
  | a :: b :: c :: d :: rest => do
      let a ← hexValue? a
      let b ← hexValue? b
      let c ← hexValue? c
      let d ← hexValue? d
      some (((a * 16 + b) * 16 + c) * 16 + d, rest)
  | _ => none

/-- The character of a unit, or of two units that form a pair. -/
def unicodeEscape : Reader Char := fun s => do
  let (unit, rest) ← fourHex s
  if 0xD800 ≤ unit ∧ unit < 0xDC00 then
    match rest with
    | '\\' :: 'u' :: more => do
        let (second, rest) ← fourHex more
        if 0xDC00 ≤ second ∧ second < 0xE000 then
          some (Char.ofNat (0x10000 + (unit - 0xD800) * 0x400 + (second - 0xDC00)), rest)
        else none
    | _ => none
  else if 0xDC00 ≤ unit ∧ unit < 0xE000 then none
  else some (Char.ofNat unit, rest)

def simpleEscape? : Char → Option Char
  | '"' => some '"'
  | '\\' => some '\\'
  | '/' => some '/'
  | 'b' => some '\x08'
  | 'f' => some '\x0c'
  | 'n' => some '\n'
  | 'r' => some '\r'
  | 't' => some '\t'
  | _ => none

/-- The text after an opening quote, up to the closing one. -/
def quotedRest : Nat → List Char → Reader String
  | 0, _, _ => none
  | _ + 1, _, [] => none
  | n + 1, taken, c :: rest =>
      if c = '"' then some (String.ofList taken.reverse, rest)
      else if c = '\\' then
        match rest with
        | 'u' :: more => do
            let (c, rest) ← unicodeEscape more
            quotedRest n (c :: taken) rest
        | e :: rest => do
            let c ← simpleEscape? e
            quotedRest n (c :: taken) rest
        | [] => none
      else if c.toNat < 0x20 then none
      else quotedRest n (c :: taken) rest

/-!
# Numbers
-/

def digits (s : List Char) : List Char × List Char :=
  (s.takeWhile Char.isDigit, s.dropWhile Char.isDigit)

def natOf (ds : List Char) : Nat :=
  ds.foldl (fun n d => 10 * n + (d.toNat - '0'.toNat)) 0

def exponentPart : Reader Int
  | e :: rest =>
      if e = 'e' ∨ e = 'E' then
        let (negative, rest) := match rest with
          | '-' :: rest => (true, rest)
          | '+' :: rest => (false, rest)
          | rest => (false, rest)
        match digits rest with
        | ([], _) => none
        | (ds, rest) => some (if negative then -natOf ds else natOf ds, rest)
      else none
  | [] => none

/-- A whole number when it fits 64 bits, except for a negative zero. -/
def wholeNumber (negative : Bool) (n : Nat) : Value :=
  if negative then
    if n = 0 || n > Number.signedLimit then .float (-(Decimal.mk n 0).toFloat) else .int (-n)
  else if n < Number.wordLimit then .int n
  else .float (Decimal.mk n 0).toFloat

def number : Reader Value := fun s =>
  let (negative, s) := match s with
    | '-' :: rest => (true, rest)
    | s => (false, s)
  match digits s with
  | ([], _) => none
  | (whole, rest) =>
      if whole.length > 1 ∧ whole.head? = some '0' then none
      else
        let fraction? : Option (List Char × List Char) := match rest with
          | '.' :: more => match digits more with
            | ([], _) => none
            | found => some found
          | rest => some ([], rest)
        match fraction? with
        | none => none
        | some (fraction, rest) =>
            let sign (x : Float) := if negative then -x else x
            match rest.head?, exponentPart rest with
            | _, some (e, rest) =>
                let d : Decimal := ⟨natOf (whole ++ fraction), e - fraction.length⟩
                some (.float (sign d.toFloat), rest)
            | head, none =>
                if head = some 'e' ∨ head = some 'E' then none
                else if fraction.isEmpty then some (wholeNumber negative (natOf whole), rest)
                else
                  let d : Decimal := ⟨natOf (whole ++ fraction), -fraction.length⟩
                  some (.float (sign d.toFloat), rest)

/-!
# Values

The first argument bounds the number of nested readers; the length of the text
is always enough.
-/

mutual

def value : Nat → Reader Value
  | 0, _ => none
  | n + 1, s =>
      match skipBlanks s with
      | 'n' :: 'u' :: 'l' :: 'l' :: rest => some (.null, rest)
      | 't' :: 'r' :: 'u' :: 'e' :: rest => some (.bool true, rest)
      | 'f' :: 'a' :: 'l' :: 's' :: 'e' :: rest => some (.bool false, rest)
      | '"' :: rest => do
          let (text, rest) ← quotedRest (rest.length + 1) [] rest
          some (.text text, rest)
      | '[' :: rest =>
          match skipBlanks rest with
          | ']' :: rest => some (.list [], rest)
          | rest => do
              let (found, rest) ← items n [] rest
              some (.list found, rest)
      | '\x7b' :: rest =>
          match skipBlanks rest with
          | '\x7d' :: rest => some (.object [], rest)
          | rest => do
              let (found, rest) ← fields n [] rest
              some (.object found, rest)
      | s => number s

def items : Nat → List Value → Reader (List Value)
  | 0, _, _ => none
  | n + 1, taken, s => do
      let (v, rest) ← value n s
      match skipBlanks rest with
      | ',' :: rest => items n (v :: taken) rest
      | ']' :: rest => some ((v :: taken).reverse, rest)
      | _ => none

def fields : Nat → List (String × Value) → Reader (List (String × Value))
  | 0, _, _ => none
  | n + 1, taken, s =>
      match skipBlanks s with
      | '"' :: rest => do
          let (name, rest) ← quotedRest (rest.length + 1) [] rest
          match skipBlanks rest with
          | ':' :: rest => do
              let (v, rest) ← value n rest
              let taken := Value.setField taken name v
              match skipBlanks rest with
              | ',' :: rest => fields n taken rest
              | '\x7d' :: rest => some (taken, rest)
              | _ => none
          | _ => none
      | _ => none

end

/-- The one value that a text holds. -/
def parse (s : String) : Option Value := do
  let (v, rest) ← value (2 * s.length + 2) s.toList
  if (skipBlanks rest).isEmpty then some v else none

end Json
end Data
end Ripple
