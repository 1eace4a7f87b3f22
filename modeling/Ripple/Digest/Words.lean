import Ripple.Number

/-!
# Words of a byte array

Bytes are read in groups of four or eight, the least significant byte first.
Positions outside the array read as zero; the digest never asks for one.
-/

namespace Ripple
namespace Digest

def byteAt (data : ByteArray) (i : Nat) : UInt8 :=
  if h : i < data.size then data[i] else 0

def word32 (data : ByteArray) (i : Nat) : UInt32 :=
  (byteAt data i).toUInt32 ||| ((byteAt data (i + 1)).toUInt32 <<< 8) |||
    ((byteAt data (i + 2)).toUInt32 <<< 16) ||| ((byteAt data (i + 3)).toUInt32 <<< 24)

def word64 (data : ByteArray) (i : Nat) : UInt64 :=
  (word32 data i).toUInt64 ||| ((word32 data (i + 4)).toUInt64 <<< 32)

/-- The eight bytes of a word, the least significant first. -/
def bytesOf (w : UInt64) : List UInt8 :=
  (List.range 8).map fun i => (w >>> (8 * i.toUInt64)).toUInt8

def rotateLeft32 (x : UInt32) (n : UInt32) : UInt32 :=
  (x <<< n) ||| (x >>> (32 - n))

/-- The same bytes in the opposite order. -/
def swap32 (x : UInt32) : UInt32 :=
  let upper : UInt32 := 0x00FF0000
  let lower : UInt32 := 0x0000FF00
  (x <<< 24) ||| ((x <<< 8) &&& upper) ||| ((x >>> 8) &&& lower) ||| (x >>> 24)

/-- The same bytes in the opposite order. -/
def swap64 (x : UInt64) : UInt64 :=
  ((swap32 x.toUInt32).toUInt64 <<< 32) ||| (swap32 (x >>> 32).toUInt32).toUInt64

def xorShift (x : UInt64) (n : UInt64) : UInt64 :=
  x ^^^ (x >>> n)

/-- A pair of words, the low one and the high one of a value of 128 bits. -/
structure Wide where
  low : UInt64
  high : UInt64
  deriving DecidableEq, Repr, Inhabited, Hashable

/-- The full product of two words. -/
def wideProduct (a b : UInt64) : Wide :=
  let product := a.toNat * b.toNat
  ⟨product.toUInt64, (product / Number.wordLimit).toUInt64⟩

/-- The two halves of the full product, combined. -/
def foldedProduct (a b : UInt64) : UInt64 :=
  let product := wideProduct a b
  product.low ^^^ product.high

end Digest
end Ripple
