import Ripple.Data.Json.Reader
import Ripple.Data.Value
import Ripple.Number

/-!
# Bare scalars of TOML

Booleans, numbers and moments are written without quotes. A bare word is read as
a whole, so nothing may follow the scalar directly.
-/

namespace Ripple
namespace Data
namespace Toml

/-- The digits of a numeral whose underscores each stand between two digits. -/
def stripUnderscores (isDigit : Char → Bool) (s : List Char) : Option (List Char) :=
  let groups := s.splitOn '_'
  if groups.all fun g => !g.isEmpty && g.all isDigit then some groups.flatten else none

def decimalDigits : List Char → Option (List Char) :=
  stripUnderscores Char.isDigit

/-- Decimal digits in which no zero leads. -/
def plainDigits (s : List Char) : Option (List Char) := do
  let ds ← decimalDigits s
  if ds.length > 1 ∧ s.head? = some '0' then none else some ds

/-- A sign in front, and whether it is a minus. -/
def splitSign : List Char → Bool × Bool × List Char
  | '-' :: rest => (true, true, rest)
  | '+' :: rest => (true, false, rest)
  | rest => (false, false, rest)

/-!
# Whole numbers
-/

def inBase (base : Nat) (s : List Char) : Option Value := do
  let isDigit (c : Char) := ((Json.hexValue? c).map fun v => decide (v < base)).getD false
  let ds ← stripUnderscores isDigit s
  let n := ds.foldl (fun n c => base * n + (Json.hexValue? c).getD 0) 0
  if n < Number.signedLimit then some (.int n) else none

def integer? : List Char → Option Value
  | '0' :: 'x' :: rest => inBase 16 rest
  | '0' :: 'o' :: rest => inBase 8 rest
  | '0' :: 'b' :: rest => inBase 2 rest
  | s => do
      let (_, negative, body) := splitSign s
      let ds ← plainDigits body
      let n := Json.natOf ds
      if negative then if n ≤ Number.signedLimit then some (.int (-n)) else none
      else if n < Number.signedLimit then some (.int n) else none

/-!
# Fractions
-/

def exponent? (s : List Char) : Option Int := do
  let (_, negative, body) := splitSign s
  let ds ← decimalDigits body
  some (if negative then -Json.natOf ds else Json.natOf ds)

/-- A number with a point or an exponent; one beyond the range of doubles is refused. -/
def fraction? (s : List Char) : Option Value := do
  let (_, negative, body) := splitSign s
  let mantissa := body.takeWhile fun c => c ≠ 'e' && c ≠ 'E'
  let tail := body.drop mantissa.length
  let e ← match tail with
    | [] => some 0
    | _ :: digits => exponent? digits
  let (whole, part) ← match mantissa.splitOn '.' with
    | [whole] => if tail.isEmpty then none else do
        let whole ← plainDigits whole
        some (whole, [])
    | [whole, part] => do
        let whole ← plainDigits whole
        let part ← decimalDigits part
        some (whole, part)
    | _ => none
  let x := (Decimal.mk (Json.natOf (whole ++ part)) (e - part.length)).toFloat
  if x.isInf then none else some (.float (if negative then -x else x))

def special? (s : List Char) : Option Value :=
  let (_, negative, body) := splitSign s
  let infinite := Float.ofBits 0x7FF0000000000000
  if body = ['i', 'n', 'f'] then some (.float (if negative then -infinite else infinite))
  else if body = ['n', 'a', 'n'] then some (.float (Float.ofBits 0x7FF8000000000000))
  else none

/-!
# Moments
-/

def fixedDigits (count : Nat) (s : List Char) : Option (Nat × List Char) :=
  let ds := s.take count
  if ds.length = count ∧ ds.all Char.isDigit then some (Json.natOf ds, s.drop count) else none

def daysIn (year month : Nat) : Nat :=
  if month = 2 then
    if year % 4 = 0 && (year % 100 ≠ 0 || year % 400 = 0) then 29 else 28
  else if month = 4 || month = 6 || month = 9 || month = 11 then 30
  else 31

def date? (s : List Char) : Option (List Char) := do
  let (year, s) ← fixedDigits 4 s
  let '-' :: s := s | none
  let (month, s) ← fixedDigits 2 s
  let '-' :: s := s | none
  let (day, s) ← fixedDigits 2 s
  if 1 ≤ month ∧ month ≤ 12 ∧ 1 ≤ day ∧ day ≤ daysIn year month then some s else none

def time? (s : List Char) : Option (List Char) := do
  let (hour, s) ← fixedDigits 2 s
  let ':' :: s := s | none
  let (minute, s) ← fixedDigits 2 s
  let ':' :: s := s | none
  let (second, s) ← fixedDigits 2 s
  if hour ≤ 23 ∧ minute ≤ 59 ∧ second ≤ 60 then
    match s with
    | '.' :: more =>
        let ds := more.takeWhile Char.isDigit
        if ds.isEmpty then none else some (more.drop ds.length)
    | s => some s
  else none

/-- A distance from universal time, or nothing. -/
def offset? : List Char → Option (List Char)
  | [] => some []
  | sign :: s =>
      if sign = 'Z' ∨ sign = 'z' then some s
      else if sign = '+' ∨ sign = '-' then do
        let (hour, s) ← fixedDigits 2 s
        let ':' :: s := s | none
        let (minute, s) ← fixedDigits 2 s
        if hour ≤ 23 ∧ minute ≤ 59 then some s else none
      else none

/-- A time of day with an optional distance, and nothing after it. -/
def isClock (s : List Char) : Bool :=
  ((time? s).bind offset?) = some []

def isDate (s : List Char) : Bool :=
  date? s = some []

def moment? (s : List Char) : Option Value :=
  let found : Bool :=
    match date? s with
    | some [] => true
    | some (mark :: clock) => (mark = 'T' || mark = 't') && isClock clock
    | none => time? s = some []
  if found then some (.moment (String.ofList s)) else none

/-!
# Bare words
-/

def isBareScalar (c : Char) : Bool :=
  c.isAlphanum || c = '+' || c = '-' || c = '_' || c = '.' || c = ':'

def scalar? (s : List Char) : Option Value :=
  if s = ['t', 'r', 'u', 'e'] then some (.bool true)
  else if s = ['f', 'a', 'l', 's', 'e'] then some (.bool false)
  else special? s <|> moment? s <|> integer? s <|> fraction? s

/-- The bare word in front, and the rest. A date and a time of day may also be
parted by one blank. -/
def bareScalar (s : List Char) : Option (Value × List Char) := do
  let word := s.takeWhile isBareScalar
  let rest := s.drop word.length
  match rest with
  | ' ' :: more =>
      let clock := more.takeWhile isBareScalar
      if isDate word && isClock clock then
        some (.moment (String.ofList (word ++ ' ' :: clock)), more.drop clock.length)
      else (scalar? word).map fun v => (v, rest)
  | rest => (scalar? word).map fun v => (v, rest)

end Toml
end Data
end Ripple
