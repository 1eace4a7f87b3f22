import Ripple.Number

/-!
# Decimals and binary fractions

A decimal is `digits * 10 ^ exponent`. Between decimals and double-precision
numbers there are two directions: the nearest double of a decimal, and the
shortest decimal whose nearest double is the given one.
-/

namespace Ripple

structure Decimal where
  digits : Nat
  exponent : Int
  deriving DecidableEq, Repr, Inhabited

namespace Decimal

def digitCount (n : Nat) : Nat :=
  (Nat.toDigits 10 n).length

/-!
# The nearest double

Exponents far outside the range of doubles are decided without computing the
power: everything above it is infinite and everything below it is zero.
-/

def toFloat (d : Decimal) : Float :=
  let magnitude := d.exponent + digitCount d.digits
  if d.digits = 0 then 0.0
  else if magnitude > 400 then Float.ofBits 0x7FF0000000000000
  else if magnitude < -400 then 0.0
  else if d.exponent ≥ 0 then Float.ofScientific d.digits false d.exponent.toNat
  else Float.ofScientific d.digits true (-d.exponent).toNat

/-!
# The shortest decimal of a double

A finite positive double is `m * 2 ^ q`. The numbers that round to it reach half
a gap up and half a gap down, where the gap below a power of two is half as
wide; the ends belong to them exactly when `m` is even. All of this is kept as
whole numbers over one denominator.
-/

/-- The numbers that round to a positive double: `low`, `value` and `high` over `scale`. -/
structure Interval where
  low : Nat
  value : Nat
  high : Nat
  scale : Nat
  closed : Bool

/-- The interval of the double with this mantissa and power of two. -/
def Interval.ofParts (m : Nat) (q : Int) (narrow : Bool) : Interval :=
  let low := 4 * m - if narrow then 1 else 2
  let factor := if q ≥ 2 then Nat.pow 2 (q - 2).toNat else 1
  let scale := if q ≥ 2 then 1 else Nat.pow 2 (2 - q).toNat
  ⟨low * factor, 4 * m * factor, (4 * m + 2) * factor, scale, m % 2 = 0⟩

/-- The leading bit of a mantissa of 53 bits. -/
def hiddenBit : Nat := 0x10000000000000

/-- The interval of a finite positive double, from its bits. -/
def Interval.ofBits (bits : Nat) : Interval :=
  let fraction : Nat := bits % hiddenBit
  let biased : Nat := bits / hiddenBit % 2048
  if biased = 0 then .ofParts fraction (-1074) false
  else .ofParts (hiddenBit + fraction) ((biased : Int) - 1075) (fraction = 0 && 1 < biased)

/-- The decimal `k * 10 ^ e` lies in the interval. -/
def Interval.holds (i : Interval) (k : Nat) (e : Int) : Bool :=
  let up := if e ≥ 0 then Nat.pow 10 e.toNat else 1
  let down := if e ≥ 0 then 1 else Nat.pow 10 (-e).toNat
  let point := k * up * i.scale
  if i.closed then i.low * down ≤ point && point ≤ i.high * down
  else i.low * down < point && point < i.high * down

/-- The power of ten of the leading digit. -/
def Interval.leading (i : Interval) : Int :=
  if i.scale ≤ i.value then digitCount (i.value / i.scale) - 1
  else -(digitCount ((i.scale - 1) / i.value) : Int)

/-- The best decimal with unit `10 ^ e`, if one of the two next to the value is
in the interval: of two the nearer, and of two equally near the even one. -/
def Interval.nearest? (i : Interval) (e : Int) : Option Decimal :=
  let up := if e ≥ 0 then Nat.pow 10 e.toNat else 1
  let down := if e ≥ 0 then 1 else Nat.pow 10 (-e).toNat
  let unit := up * i.scale
  let k := i.value * down / unit
  let rest := i.value * down % unit
  match i.holds k e, i.holds (k + 1) e with
  | false, false => none
  | true, false => some ⟨k, e⟩
  | false, true => some ⟨k + 1, e⟩
  | true, true =>
      if 2 * rest < unit || (2 * rest = unit && k % 2 = 0) then some ⟨k, e⟩
      else some ⟨k + 1, e⟩

/-- No zero is left at the end of the digits. -/
def trimZeros : Nat → Decimal → Decimal
  | 0, d => d
  | n + 1, d =>
      if d.digits ≠ 0 && d.digits % 10 = 0 then trimZeros n ⟨d.digits / 10, d.exponent + 1⟩ else d

/-- The shortest decimal in the interval; seventeen digits always suffice. -/
def Interval.shortest (i : Interval) : Decimal :=
  let tries := (List.range 17).findSome? fun (n : Nat) => i.nearest? (i.leading - n)
  trimZeros 20 (tries.getD ⟨0, 0⟩)

/-- The shortest decimal that reads back as a finite double, its sign aside. -/
def ofFloat (x : Float) : Decimal :=
  let bits := x.toBits.toNat % Number.signedLimit
  if bits = 0 then ⟨0, 0⟩ else (Interval.ofBits bits).shortest

end Decimal

end Ripple
