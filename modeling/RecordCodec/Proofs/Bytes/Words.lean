import Mathlib.Algebra.Ring.Int.Defs
import RecordCodec.Proofs.Bytes.Consumption
import RecordCodec.Value.Integer

/-!
Integers in words. A word of one of the widths and the integer that it denotes determine each other,
and what is read of a queue is an integer of its word.
-/
namespace RecordCodec

/-- The integers of a word of `bytes` bytes, in two's complement if it is signed. -/
def InWord (bytes : Nat) (signed : Bool) (v : Int) : Prop :=
  if signed then -2 ^ (8 * bytes - 1) ≤ v ∧ v < 2 ^ (8 * bytes - 1) else 0 ≤ v ∧ v < 2 ^ (8 * bytes)

instance (bytes : Nat) (signed : Bool) (v : Int) : Decidable (InWord bytes signed v) :=
  inferInstanceAs (Decidable (ite ..))

theorem inWord_int64 {v : Int} : InWord 8 true v ↔ int64Min ≤ v ∧ v ≤ int64Max := by
  simp only [InWord, int64Min, int64Max, if_true]
  omega

theorem inWord_uint64 {v : Int} : InWord 8 false v ↔ 0 ≤ v ∧ v ≤ uint64Max := by
  simp only [InWord, uint64Max, Bool.false_eq_true, if_false]
  omega

theorem inWord_width {width : BinaryWidth} {signed : Bool} {v : Int} :
    InWord width.bytes signed v ↔
      IntegerField.low width signed ≤ v ∧ v ≤ IntegerField.high width signed := by
  cases width <;> cases signed <;>
    simp [InWord, BinaryWidth.bytes, IntegerField.low, IntegerField.high, Bytes.capacity] <;> omega

theorem InWord.of_width {width : BinaryWidth} {signed : Bool} {v : Int}
    (held : InWord width.bytes signed v) : InWord 8 signed v := by
  cases width <;> cases signed <;> simp [InWord, BinaryWidth.bytes] at held ⊢ <;> omega

namespace IntegerField

variable {width : BinaryWidth} {signed : Bool}

theorem ofNat_unsignedOf {v : Int} (above : low width signed ≤ v) (below : v ≤ high width signed) :
    ofNat width signed (unsignedOf width.bytes v) = v := by
  cases width <;> cases signed <;>
    simp [low, high, ofNat, signedOf, unsignedOf, BinaryWidth.bytes, Bytes.capacity] at * <;> omega

theorem unsignedOf_lt (width : BinaryWidth) (v : Int) :
    unsignedOf width.bytes v < Bytes.capacity width.bytes := by
  cases width <;> simp [unsignedOf, BinaryWidth.bytes, Bytes.capacity] <;> omega

theorem unsignedOf_ofNat {n : Nat} (word : n < Bytes.capacity width.bytes) :
    unsignedOf width.bytes (ofNat width signed n) = n := by
  cases width <;> cases signed <;>
    simp only [ofNat, signedOf, unsignedOf, BinaryWidth.bytes, Bytes.capacity] at * <;> omega

theorem inWord_ofNat {n : Nat} (word : n < Bytes.capacity width.bytes) :
    InWord width.bytes signed (ofNat width signed n) := by
  rw [inWord_width]
  cases signed with
  | false =>
    simp only [ofNat, low, high, Bool.false_eq_true, if_false]
    omega
  | true =>
    simp only [ofNat, signedOf, low, high, if_true, Nat.mod_eq_of_lt word]
    cases width <;> simp only [BinaryWidth.bytes, Bytes.capacity] at word ⊢ <;> split <;> omega

theorem inWord_read {q q' : ByteQueue} {v : Int} (h : read width signed q = .ok (v, q')) :
    InWord width.bytes signed v := by
  obtain ⟨⟨n, rest⟩, word, same⟩ := Outcome.bind_ok.mp h
  cases same
  obtain ⟨⟨bytes, rest⟩, taken, same⟩ := Outcome.bind_ok.mp word
  cases same
  have length := ByteQueue.length_take taken
  exact inWord_ofNat (length ▸ q.order.decode_lt bytes)

end IntegerField

end RecordCodec
