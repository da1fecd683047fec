/-!
Machine words as byte strings. A word of `width` bytes is written in one of two byte orders, which
are reverses of each other, and read back as a natural or a two's complement number.
-/
namespace RecordCodec

inductive ByteOrder where
  | big
  | little
  deriving DecidableEq, Repr

namespace Bytes

def ofNatLow : Nat → Nat → List UInt8
  | 0, _ => []
  | width + 1, n => UInt8.ofNat n :: ofNatLow width (n / 256)

def capacity : Nat → Nat
  | 0 => 1
  | width + 1 => 256 * capacity width

def toNatLow : List UInt8 → Nat
  | [] => 0
  | b :: rest => b.toNat + 256 * toNatLow rest

@[simp] theorem length_ofNatLow (width n : Nat) : (ofNatLow width n).length = width := by
  induction width generalizing n with
  | zero => rfl
  | succ width ih => simp [ofNatLow, ih]

theorem toNatLow_ofNatLow (width n : Nat) : toNatLow (ofNatLow width n) = n % capacity width := by
  induction width generalizing n with
  | zero => simp [ofNatLow, toNatLow, capacity, Nat.mod_one]
  | succ width ih =>
    have hbyte : (UInt8.ofNat n).toNat = n % 256 := UInt8.toNat_ofNat'
    rw [ofNatLow, toNatLow, ih, hbyte, capacity, Nat.mod_mul]

theorem ofNatLow_toNatLow (bytes : List UInt8) :
    ofNatLow bytes.length (toNatLow bytes) = bytes := by
  induction bytes with
  | nil => rfl
  | cons b rest ih =>
    have hb := b.toNat_lt
    have hdiv : (b.toNat + 256 * toNatLow rest) / 256 = toNatLow rest := by omega
    have hlow : UInt8.ofNat (b.toNat + 256 * toNatLow rest) = b := by
      apply UInt8.toNat_inj.mp
      rw [UInt8.toNat_ofNat']
      omega
    simp only [List.length_cons, ofNatLow, toNatLow, hdiv, hlow, ih]

theorem toNatLow_lt (bytes : List UInt8) : toNatLow bytes < capacity bytes.length := by
  induction bytes with
  | nil => simp [toNatLow, capacity]
  | cons b rest ih =>
    have hb := b.toNat_lt
    simp only [toNatLow, List.length_cons, capacity]
    omega

end Bytes

namespace ByteOrder

/-- The number `n` modulo the capacity of `width` bytes, in `width` bytes. -/
def encode (order : ByteOrder) (width n : Nat) : List UInt8 :=
  match order with
  | .big => (Bytes.ofNatLow width n).reverse
  | .little => Bytes.ofNatLow width n

def decode (order : ByteOrder) (bytes : List UInt8) : Nat :=
  match order with
  | .big => Bytes.toNatLow bytes.reverse
  | .little => Bytes.toNatLow bytes

@[simp] theorem length_encode (order : ByteOrder) (width n : Nat) :
    (order.encode width n).length = width := by
  cases order <;> simp [encode]

theorem decode_encode (order : ByteOrder) (width n : Nat) :
    order.decode (order.encode width n) = n % Bytes.capacity width := by
  cases order <;> simp [encode, decode, Bytes.toNatLow_ofNatLow]

theorem encode_decode (order : ByteOrder) (bytes : List UInt8) :
    order.encode bytes.length (order.decode bytes) = bytes := by
  cases order with
  | big =>
    have h := Bytes.ofNatLow_toNatLow bytes.reverse
    rw [List.length_reverse] at h
    simp [encode, decode, h]
  | little => exact Bytes.ofNatLow_toNatLow bytes

theorem decode_lt (order : ByteOrder) (bytes : List UInt8) :
    order.decode bytes < Bytes.capacity bytes.length := by
  cases order with
  | big => simpa [decode] using Bytes.toNatLow_lt bytes.reverse
  | little => exact Bytes.toNatLow_lt bytes

end ByteOrder

def unsignedOf (width : Nat) (v : Int) : Nat :=
  (v % (Bytes.capacity width : Nat)).toNat

def signedOf (width n : Nat) : Int :=
  let n := n % Bytes.capacity width
  if 2 * n < Bytes.capacity width then n else (n : Int) - (Bytes.capacity width : Nat)

def int64Min : Int := -9223372036854775808

def int64Max : Int := 9223372036854775807

def uint64Max : Int := 18446744073709551615

def int128Min : Int := -170141183460469231731687303715884105728

def int128Max : Int := 170141183460469231731687303715884105727

/-- The number of sixteen signed bytes with the lowest bits of `v`. -/
def wrap128 (v : Int) : Int :=
  (BitVec.ofInt 128 v).toInt

theorem wrap128_eq {v : Int} (low : int128Min ≤ v) (high : v ≤ int128Max) : wrap128 v = v := by
  simp only [int128Min, int128Max] at low high
  rw [wrap128, BitVec.toInt_ofInt]
  exact Int.bmod_eq_of_le_mul_two (by omega) (by omega)

end RecordCodec
