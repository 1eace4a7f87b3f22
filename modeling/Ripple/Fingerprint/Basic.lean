import Ripple.Digest.Xxh3

/-!
# Fingerprints

A fingerprint is the digest of a stream of bytes, sixteen bytes with the least
significant first. It is shown as hexadecimal digits, two for each byte.
-/

namespace Ripple

structure Fingerprint where
  bytes : List UInt8
  length_bytes : bytes.length = 16
  deriving DecidableEq, Repr

namespace Fingerprint

theorem length_bytesOf (w : UInt64) : (Digest.bytesOf w).length = 8 := by
  simp [Digest.bytesOf]

instance : Inhabited Fingerprint := ⟨⟨List.replicate 16 0, by simp⟩⟩

def ofWide (w : Digest.Wide) : Fingerprint :=
  ⟨Digest.bytesOf w.low ++ Digest.bytesOf w.high, by simp [length_bytesOf]⟩

/-- The fingerprint of a stream of bytes. -/
def ofStream (stream : List UInt8) : Fingerprint :=
  ofWide (Digest.xxh3 ⟨stream.toArray⟩)

def ofBytes? (bytes : List UInt8) : Option Fingerprint :=
  if h : bytes.length = 16 then some ⟨bytes, h⟩ else none

theorem ofBytes?_bytes (f : Fingerprint) : ofBytes? f.bytes = some f := by
  simp [ofBytes?, f.length_bytes]

/-- Fingerprints are ordered by their bytes. -/
def le (f g : Fingerprint) : Bool :=
  decide (f.bytes ≤ g.bytes)

/-!
# How a fingerprint is shown
-/

def hexByte (b : UInt8) : List Char :=
  [Nat.digitChar (b.toNat / 16), Nat.digitChar (b.toNat % 16)]

def hex (f : Fingerprint) : String :=
  String.ofList (f.bytes.flatMap hexByte)

/-- The first four bytes, with a mark that there are more. -/
def summary (f : Fingerprint) : String :=
  "Fingerprint(" ++ String.ofList ((f.bytes.take 4).flatMap hexByte) ++ "..)"

end Fingerprint
end Ripple
