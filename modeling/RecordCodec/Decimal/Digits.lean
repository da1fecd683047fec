import RecordCodec.Bytes.Order
import RecordCodec.Bytes.Hex
import RecordCodec.Text.Number

/-!
Decimal digits of a number, and what can go wrong between a number and a decimal field.
-/
namespace RecordCodec.Decimal

def digitCount (n : Nat) : Nat :=
  if n < 10 then 1 else digitCount (n / 10) + 1
termination_by n
decreasing_by omega

theorem digitCount_pos (n : Nat) : 0 < digitCount n := by
  unfold digitCount
  split <;> omega

theorem digitCount_le_iff {n k : Nat} (hk : 0 < k) : digitCount n ≤ k ↔ n < Nat.pow 10 k := by
  induction k generalizing n with
  | zero => omega
  | succ k ih =>
    have hpow : Nat.pow 10 (k + 1) = Nat.pow 10 k * 10 := rfl
    have hpos : 0 < Nat.pow 10 k := Nat.pow_pos (by omega)
    unfold digitCount
    split
    · omega
    · cases k with
      | zero =>
        have hone : Nat.pow 10 0 = 1 := rfl
        have := digitCount_pos (n / 10)
        omega
      | succ k =>
        have h := ih (n := n / 10) (by omega)
        omega

/-- Why a number and a decimal field do not fit together. -/
inductive Fault where
  /-- The number `value` needs `digits` digits where `capacity` are available. -/
  | overflow (value : Int) (digits capacity : Nat)
  /-- A half byte above nine at a digit position. -/
  | badDigit (nibble position : Nat)
  deriving DecidableEq, Repr

def Fault.message : Fault → String
  | .overflow value digits capacity =>
    s!"value {value} needs {digits} digits, field holds {capacity}"
  | .badDigit nibble position =>
    let digit := String.ofList ((Hex.ofNat nibble).map Char.toUpper)
    s!"invalid digit nibble 0x{digit} at byte {position}"

def int64? (v : Int) : Option Int :=
  if int64Min ≤ v ∧ v ≤ int64Max then some v else none

end RecordCodec.Decimal
