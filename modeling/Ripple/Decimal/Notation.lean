import Ripple.Decimal.Basic
import Ripple.Number

/-!
# Writing doubles

Two notations are in use. Messages write every digit before and after the point
and never an exponent. Data files write at most sixteen digits before the point,
mark a whole number by `.0`, and otherwise use an exponent.
-/

namespace Ripple
namespace Decimal

def isNegative (x : Float) : Bool :=
  Number.signedLimit ≤ x.toBits.toNat

def zeros (n : Nat) : String :=
  String.ofList (List.replicate n '0')

def digitText (d : Decimal) : String :=
  String.ofList (Nat.toDigits 10 d.digits)

/-- The digits with a point before the last `n` of them. -/
def pointed (text : String) (n : Nat) : String :=
  let padded := zeros (n + 1 - text.length) ++ text
  let whole := padded.toList.take (padded.length - n)
  let part := padded.toList.drop (padded.length - n)
  String.ofList whole ++ "." ++ String.ofList part

/-- All digits, without an exponent. -/
def positional (d : Decimal) : String :=
  if d.exponent ≥ 0 then digitText d ++ zeros d.exponent.toNat
  else pointed (digitText d) (-d.exponent).toNat

/-- A whole number ends in `.0`; exponents begin above sixteen digits and below `1e-5`. -/
def compact (d : Decimal) : String :=
  let text := digitText d
  let point : Int := d.exponent + text.length
  if d.digits = 0 then "0.0"
  else if 0 ≤ d.exponent && point ≤ 16 then text ++ zeros d.exponent.toNat ++ ".0"
  else if -5 < point && point ≤ 16 then pointed text (-d.exponent).toNat
  else
    let mantissa := if text.length = 1 then text else pointed text (text.length - 1)
    mantissa ++ "e" ++ toString (point - 1)

def signed (x : Float) (write : Decimal → String) : String :=
  (if isNegative x then "-" else "") ++ write (ofFloat x)

/-- How a message writes a number. -/
def message (x : Float) : String :=
  if x.isNaN then "NaN"
  else if x.isInf then if isNegative x then "-inf" else "inf"
  else signed x positional

/-- How a data file writes a finite number. -/
def data (x : Float) : String :=
  signed x compact

end Decimal
end Ripple
