import Ripple.Digest.Words

/-!
# The digest XXH3 with 128 bits

The digest of a byte array, with seed zero and the default secret. Short inputs
have a formula of their own for each range of lengths; inputs above 240 bytes
are taken in stripes of 64 bytes.
-/

namespace Ripple
namespace Digest
namespace Xxh3

/-!
# Constants
-/

def prime32A : UInt64 := 0x9E3779B1
def prime32B : UInt64 := 0x85EBCA77
def prime32C : UInt64 := 0xC2B2AE3D
def prime64A : UInt64 := 0x9E3779B185EBCA87
def prime64B : UInt64 := 0xC2B2AE3D27D4EB4F
def prime64C : UInt64 := 0x165667B19E3779F9
def prime64D : UInt64 := 0x85EBCA77C2B2AE63
def prime64E : UInt64 := 0x27D4EB2F165667C5
def mixA : UInt64 := 0x165667919E3779F9
def mixB : UInt64 := 0x9FB21C651E98DF25

def secret : ByteArray := ⟨#[
  0xb8, 0xfe, 0x6c, 0x39, 0x23, 0xa4, 0x4b, 0xbe, 0x7c, 0x01, 0x81, 0x2c, 0xf7, 0x21, 0xad, 0x1c,
  0xde, 0xd4, 0x6d, 0xe9, 0x83, 0x90, 0x97, 0xdb, 0x72, 0x40, 0xa4, 0xa4, 0xb7, 0xb3, 0x67, 0x1f,
  0xcb, 0x79, 0xe6, 0x4e, 0xcc, 0xc0, 0xe5, 0x78, 0x82, 0x5a, 0xd0, 0x7d, 0xcc, 0xff, 0x72, 0x21,
  0xb8, 0x08, 0x46, 0x74, 0xf7, 0x43, 0x24, 0x8e, 0xe0, 0x35, 0x90, 0xe6, 0x81, 0x3a, 0x26, 0x4c,
  0x3c, 0x28, 0x52, 0xbb, 0x91, 0xc3, 0x00, 0xcb, 0x88, 0xd0, 0x65, 0x8b, 0x1b, 0x53, 0x2e, 0xa3,
  0x71, 0x64, 0x48, 0x97, 0xa2, 0x0d, 0xf9, 0x4e, 0x38, 0x19, 0xef, 0x46, 0xa9, 0xde, 0xac, 0xd8,
  0xa8, 0xfa, 0x76, 0x3f, 0xe3, 0x9c, 0x34, 0x3f, 0xf9, 0xdc, 0xbb, 0xc7, 0xc7, 0x0b, 0x4f, 0x1d,
  0x8a, 0x51, 0xe0, 0x4b, 0xcd, 0xb4, 0x59, 0x31, 0xc8, 0x9f, 0x7e, 0xc9, 0xd9, 0x78, 0x73, 0x64,
  0xea, 0xc5, 0xac, 0x83, 0x34, 0xd3, 0xeb, 0xc3, 0xc5, 0x81, 0xa0, 0xff, 0xfa, 0x13, 0x63, 0xeb,
  0x17, 0x0d, 0xdd, 0x51, 0xb7, 0xf0, 0xda, 0x49, 0xd3, 0x16, 0x55, 0x26, 0x29, 0xd4, 0x68, 0x9e,
  0x2b, 0x16, 0xbe, 0x58, 0x7d, 0x47, 0xa1, 0xfc, 0x8f, 0xf8, 0xb8, 0xd1, 0x7a, 0xd0, 0x31, 0xce,
  0x45, 0xcb, 0x3a, 0x8f, 0x95, 0x16, 0x04, 0x28, 0xaf, 0xd7, 0xfb, 0xca, 0xbb, 0x4b, 0x40, 0x7e]⟩

def secretWord (i : Nat) : UInt64 := word64 secret i

def secretHalf (i : Nat) : UInt32 := word32 secret i

/-!
# Finishing steps
-/

def finish (h : UInt64) : UInt64 :=
  xorShift (xorShift h 37 * mixA) 32

def finishSmall (h : UInt64) : UInt64 :=
  xorShift (xorShift (xorShift h 33 * prime64B) 29 * prime64C) 32

/-!
# At most sixteen bytes
-/

def ofEmpty : Wide :=
  ⟨finishSmall (secretWord 64 ^^^ secretWord 72), finishSmall (secretWord 80 ^^^ secretWord 88)⟩

def ofUpTo3 (data : ByteArray) : Wide :=
  let size := data.size
  let low : UInt32 :=
    ((byteAt data 0).toUInt32 <<< 16) ||| ((byteAt data (size / 2)).toUInt32 <<< 24) |||
      (byteAt data (size - 1)).toUInt32 ||| (size.toUInt32 <<< 8)
  let high := rotateLeft32 (swap32 low) 13
  ⟨finishSmall (low.toUInt64 ^^^ (secretHalf 0 ^^^ secretHalf 4).toUInt64),
    finishSmall (high.toUInt64 ^^^ (secretHalf 8 ^^^ secretHalf 12).toUInt64)⟩

def ofUpTo8 (data : ByteArray) : Wide :=
  let size := data.size
  let input := (word32 data 0).toUInt64 + ((word32 data (size - 4)).toUInt64 <<< 32)
  let keyed := input ^^^ (secretWord 16 ^^^ secretWord 24)
  let product := wideProduct keyed (prime64A + (size.toUInt64 <<< 2))
  let high := product.high + (product.low <<< 1)
  let low := product.low ^^^ (high >>> 3)
  ⟨xorShift (xorShift low 35 * mixB) 28, finish high⟩

def ofUpTo16 (data : ByteArray) : Wide :=
  let size := data.size
  let first := word64 data 0
  let last := word64 data (size - 8)
  let product := wideProduct (first ^^^ last ^^^ (secretWord 32 ^^^ secretWord 40)) prime64A
  let low := product.low + ((size.toUInt64 - 1) <<< 54)
  let keyed := last ^^^ (secretWord 48 ^^^ secretWord 56)
  let high := product.high + (keyed + keyed.toUInt32.toUInt64 * (prime32B - 1))
  let mixed := low ^^^ swap64 high
  let second := wideProduct mixed prime64B
  ⟨finish second.low, finish (second.high + high * prime64B)⟩

/-!
# At most 240 bytes
-/

/-- Sixteen bytes at `i`, keyed by the secret at `s`. -/
def mix16 (data : ByteArray) (i s : Nat) : UInt64 :=
  foldedProduct (word64 data i ^^^ secretWord s) (word64 data (i + 8) ^^^ secretWord (s + 8))

/-- Two groups of sixteen bytes, at `i` and at `j`, enter the state. -/
def mix32 (data : ByteArray) (acc : Wide) (i j s : Nat) : Wide :=
  ⟨(acc.low + mix16 data i s) ^^^ (word64 data j + word64 data (j + 8)),
    (acc.high + mix16 data j (s + 16)) ^^^ (word64 data i + word64 data (i + 8))⟩

def closeMiddle (acc : Wide) (size : Nat) : Wide :=
  ⟨finish (acc.low + acc.high),
    0 - finish (acc.low * prime64A + acc.high * prime64D + size.toUInt64 * prime64B)⟩

/-- Pairs of groups from both ends towards the middle, the innermost pair first. -/
def ofUpTo128 (data : ByteArray) : Wide :=
  let size := data.size
  let pairs := (List.range ((size - 1) / 32 + 1)).reverse
  let acc := pairs.foldl
    (fun acc k => mix32 data acc (16 * k) (size - 16 * (k + 1)) (32 * k))
    ⟨size.toUInt64 * prime64A, 0⟩
  closeMiddle acc size

def ofUpTo240 (data : ByteArray) : Wide :=
  let size := data.size
  let start := (List.range 4).foldl
    (fun acc k => mix32 data acc (32 * k) (32 * k + 16) (32 * k))
    ⟨size.toUInt64 * prime64A, 0⟩
  let acc := (List.range (size / 32 - 4)).foldl
    (fun acc k => mix32 data acc (32 * (k + 4)) (32 * (k + 4) + 16) (3 + 32 * k))
    ⟨finish start.low, finish start.high⟩
  closeMiddle (mix32 data acc (size - 16) (size - 32) 103) size

/-!
# Long inputs
-/

abbrev Lanes := Vector UInt64 8

def startLanes : Lanes :=
  #v[prime32C, prime64A, prime64B, prime64C, prime64D, prime32B, prime64E, prime32A]

/-- A stripe of 64 bytes at `i` enters the lanes, keyed by the secret at `s`. -/
def addStripe (data : ByteArray) (lanes : Lanes) (i s : Nat) : Lanes :=
  Vector.ofFn fun k : Fin 8 =>
    let other : Fin 8 := if k.val % 2 = 0 then k + 1 else k - 1
    let own := word64 data (i + 8 * k.val) ^^^ secretWord (s + 8 * k.val)
    lanes[k] + word64 data (i + 8 * other.val) +
      own.toUInt32.toUInt64 * (own >>> 32)

def scramble (lanes : Lanes) : Lanes :=
  Vector.ofFn fun k : Fin 8 =>
    (xorShift lanes[k] 47 ^^^ secretWord (128 + 8 * k.val)) * prime32A

def addStripes (data : ByteArray) (lanes : Lanes) (i count : Nat) : Lanes :=
  (List.range count).foldl (fun lanes k => addStripe data lanes (i + 64 * k) (8 * k)) lanes

def merge (lanes : Lanes) (s : Nat) (start : UInt64) : UInt64 :=
  finish <| start +
    foldedProduct (lanes[0] ^^^ secretWord s) (lanes[1] ^^^ secretWord (s + 8)) +
    foldedProduct (lanes[2] ^^^ secretWord (s + 16)) (lanes[3] ^^^ secretWord (s + 24)) +
    foldedProduct (lanes[4] ^^^ secretWord (s + 32)) (lanes[5] ^^^ secretWord (s + 40)) +
    foldedProduct (lanes[6] ^^^ secretWord (s + 48)) (lanes[7] ^^^ secretWord (s + 56))

/-- Blocks of sixteen stripes, then the stripes left over, then the last 64 bytes. -/
def ofLong (data : ByteArray) : Wide :=
  let size := data.size
  let blocks := (size - 1) / 1024
  let whole := (List.range blocks).foldl
    (fun lanes b => scramble (addStripes data lanes (1024 * b) 16)) startLanes
  let rest := addStripes data whole (1024 * blocks) ((size - 1 - 1024 * blocks) / 64)
  let lanes := addStripe data rest (size - 64) 121
  ⟨merge lanes 11 (size.toUInt64 * prime64A),
    merge lanes 117 ((size.toUInt64 * prime64B) ^^^ 0xFFFFFFFFFFFFFFFF)⟩

end Xxh3

/-- The digest of a byte array. -/
def xxh3 (data : ByteArray) : Wide :=
  if data.size = 0 then Xxh3.ofEmpty
  else if data.size ≤ 3 then Xxh3.ofUpTo3 data
  else if data.size ≤ 8 then Xxh3.ofUpTo8 data
  else if data.size ≤ 16 then Xxh3.ofUpTo16 data
  else if data.size ≤ 128 then Xxh3.ofUpTo128 data
  else if data.size ≤ 240 then Xxh3.ofUpTo240 data
  else Xxh3.ofLong data

end Digest
end Ripple
