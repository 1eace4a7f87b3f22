import Ripple.Fingerprint.Basic

/-!
# Digests of numbers

A list of bytes stands for a number, the first byte the least significant, and the words
that the digest reads are sections of it. On the number, the digest of up to 240 bytes takes
a small part of the work that it takes on an array, so that the fingerprints of given streams
can be compared.
-/

namespace Ripple
namespace Digest

/-!
# Words of a number
-/

def numberOf : List UInt8 → Nat
  | [] => 0
  | b :: bs => b.toNat + 256 * numberOf bs

/-- The eight bytes of a number from a place on. -/
def wordIn (n i : Nat) : UInt64 :=
  (n >>> (8 * i)).toUInt64

theorem getLsbD_toUInt8 (n j : Nat) :
    n.toUInt8.toBitVec.getLsbD j = (decide (j < 8) && n.testBit j) :=
  BitVec.getLsbD_ofNat ..

theorem getLsbD_toUInt32 (n j : Nat) :
    n.toUInt32.toBitVec.getLsbD j = (decide (j < 32) && n.testBit j) :=
  BitVec.getLsbD_ofNat ..

theorem getLsbD_toUInt64 (n j : Nat) :
    n.toUInt64.toBitVec.getLsbD j = (decide (j < 64) && n.testBit j) :=
  BitVec.getLsbD_ofNat ..

theorem joined_bytes (n : Nat) :
    n.toUInt8.toUInt32 ||| ((n >>> 8).toUInt8.toUInt32 <<< 8) |||
      ((n >>> 16).toUInt8.toUInt32 <<< 16) ||| ((n >>> 24).toUInt8.toUInt32 <<< 24) =
      n.toUInt32 := by
  apply UInt32.eq_of_toBitVec_eq
  apply BitVec.eq_of_getLsbD_eq
  intro j hj
  have hbit : (decide (j < 8) && n.testBit j ||
      !decide (j < 8) && (decide (j - 8 < 8) && n.testBit (8 + (j - 8))) ||
      !decide (j < 16) && (decide (j - 16 < 8) && n.testBit (16 + (j - 16))) ||
      !decide (j < 24) && (decide (j - 24 < 8) && n.testBit (24 + (j - 24)))) = n.testBit j := by
    grind
  rw [getLsbD_toUInt32]
  simpa [-Nat.toUInt8_eq, hj, getLsbD_toUInt8, Nat.testBit_shiftRight] using hbit

theorem joined_halves (n : Nat) :
    n.toUInt32.toUInt64 ||| ((n >>> 32).toUInt32.toUInt64 <<< 32) = n.toUInt64 := by
  apply UInt64.eq_of_toBitVec_eq
  apply BitVec.eq_of_getLsbD_eq
  intro j hj
  have hbit : (decide (j < 32) && n.testBit j ||
      !decide (j < 32) && (decide (j - 32 < 32) && n.testBit (32 + (j - 32)))) = n.testBit j := by
    grind
  rw [getLsbD_toUInt64]
  simpa [-Nat.toUInt32_eq, hj, getLsbD_toUInt32, Nat.testBit_shiftRight] using hbit

theorem byteAt_eq_getD (bs : List UInt8) (i : Nat) :
    byteAt ⟨bs.toArray⟩ i = bs[i]?.getD 0 := by
  have hsize : (⟨bs.toArray⟩ : ByteArray).size = bs.length := rfl
  unfold byteAt
  by_cases hi : i < bs.length
  · rw [dif_pos (hsize ▸ hi), List.getElem?_eq_getElem hi]
    rfl
  · rw [dif_neg (hsize ▸ hi), List.getElem?_eq_none (Nat.le_of_not_lt hi)]
    rfl

theorem numberOf_shiftRight (b : UInt8) (bs : List UInt8) (i : Nat) :
    numberOf (b :: bs) >>> (8 * (i + 1)) = numberOf bs >>> (8 * i) := by
  have hb := b.toNat_lt
  have hrest : (b.toNat + 256 * numberOf bs) >>> 8 = numberOf bs := by
    rw [Nat.shiftRight_eq_div_pow]
    omega
  rw [numberOf, Nat.mul_succ, Nat.add_comm (8 * i), Nat.shiftRight_add, hrest]

theorem byteAt_eq (bs : List UInt8) (i : Nat) :
    byteAt ⟨bs.toArray⟩ i = (numberOf bs >>> (8 * i)).toUInt8 := by
  rw [byteAt_eq_getD]
  induction bs generalizing i with
  | nil =>
      rw [numberOf, Nat.zero_shiftRight]
      rfl
  | cons b bs ih =>
      cases i with
      | zero =>
          have hb := b.toNat_lt
          apply UInt8.toNat_inj.mp
          show b.toNat = (b.toNat + 256 * numberOf bs) % 256
          omega
      | succ i =>
          rw [numberOf_shiftRight, ← ih, List.getElem?_cons_succ]

theorem word32_eq (bs : List UInt8) (i : Nat) :
    word32 ⟨bs.toArray⟩ i = (numberOf bs >>> (8 * i)).toUInt32 := by
  rw [← joined_bytes, word32]
  simp only [byteAt_eq, Nat.mul_add, Nat.shiftRight_add]

theorem word64_eq (bs : List UInt8) (i : Nat) : word64 ⟨bs.toArray⟩ i = wordIn (numberOf bs) i := by
  rw [wordIn, ← joined_halves, word64]
  simp only [word32_eq, Nat.mul_add, Nat.shiftRight_add]

/-!
# The digest
-/

namespace Xxh3

def secretNumber : Nat :=
  numberOf secret.data.toList

theorem secretWord_eq (i : Nat) : secretWord i = wordIn secretNumber i :=
  word64_eq secret.data.toList i

def mix16In (n i s : Nat) : UInt64 :=
  foldedProduct (wordIn n i ^^^ wordIn secretNumber s)
    (wordIn n (i + 8) ^^^ wordIn secretNumber (s + 8))

def mix32In (n : Nat) (acc : Wide) (i j s : Nat) : Wide :=
  ⟨(acc.low + mix16In n i s) ^^^ (wordIn n j + wordIn n (j + 8)),
    (acc.high + mix16In n j (s + 16)) ^^^ (wordIn n i + wordIn n (i + 8))⟩

theorem mix32_eq (bs : List UInt8) (acc : Wide) (i j s : Nat) :
    mix32 ⟨bs.toArray⟩ acc i j s = mix32In (numberOf bs) acc i j s := by
  simp only [mix32, mix16, mix32In, mix16In, word64_eq, secretWord_eq]

def ofUpTo128In (n size : Nat) : Wide :=
  let pairs := (List.range ((size - 1) / 32 + 1)).reverse
  let acc := pairs.foldl
    (fun acc k => mix32In n acc (16 * k) (size - 16 * (k + 1)) (32 * k))
    ⟨size.toUInt64 * prime64A, 0⟩
  closeMiddle acc size

def ofUpTo240In (n size : Nat) : Wide :=
  let start := (List.range 4).foldl
    (fun acc k => mix32In n acc (32 * k) (32 * k + 16) (32 * k))
    ⟨size.toUInt64 * prime64A, 0⟩
  let acc := (List.range (size / 32 - 4)).foldl
    (fun acc k => mix32In n acc (32 * (k + 4)) (32 * (k + 4) + 16) (3 + 32 * k))
    ⟨finish start.low, finish start.high⟩
  closeMiddle (mix32In n acc (size - 16) (size - 32) 103) size

theorem ofUpTo128_eq (bs : List UInt8) :
    ofUpTo128 ⟨bs.toArray⟩ = ofUpTo128In (numberOf bs) bs.length := by
  simp only [ofUpTo128, mix32_eq]
  rfl

theorem ofUpTo240_eq (bs : List UInt8) :
    ofUpTo240 ⟨bs.toArray⟩ = ofUpTo240In (numberOf bs) bs.length := by
  simp only [ofUpTo240, mix32_eq]
  rfl

end Xxh3

/-- The digest, on the number where the bytes are neither few nor many. -/
def ofBytes (bs : List UInt8) : Wide :=
  if bs.length ≤ 16 ∨ 240 < bs.length then xxh3 ⟨bs.toArray⟩
  else if bs.length ≤ 128 then Xxh3.ofUpTo128In (numberOf bs) bs.length
  else Xxh3.ofUpTo240In (numberOf bs) bs.length

theorem xxh3_eq (bs : List UInt8) : xxh3 ⟨bs.toArray⟩ = ofBytes bs := by
  have hsize : (⟨bs.toArray⟩ : ByteArray).size = bs.length := rfl
  unfold ofBytes
  split
  · rfl
  · have hfew : ¬ bs.length ≤ 16 := by omega
    have hmany : bs.length ≤ 240 := by omega
    rw [← Xxh3.ofUpTo128_eq, ← Xxh3.ofUpTo240_eq, xxh3, hsize, if_neg (by omega),
      if_neg (by omega), if_neg (by omega), if_neg hfew, if_pos hmany]

end Digest

namespace Fingerprint

theorem ofStream_eq : ofStream = fun stream => ofWide (Digest.ofBytes stream) := by
  funext stream
  rw [ofStream, Digest.xxh3_eq]

end Fingerprint
end Ripple
