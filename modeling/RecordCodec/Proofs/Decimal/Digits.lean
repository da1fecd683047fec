import Mathlib.Data.Nat.Digits.Lemmas
import RecordCodec.Decimal.Digits

/-!
Numbers as lists of decimal digits, the most significant one first. A list of `k` digits denotes a
number below `10 ^ k`, and no other list of `k` digits denotes it.
-/
namespace RecordCodec.Decimal

def numeral (digits : List Nat) : Nat :=
  Nat.ofDigits 10 digits.reverse

theorem numeral_append (ds es : List Nat) :
    numeral (ds ++ es) = numeral ds * 10 ^ es.length + numeral es := by
  rw [numeral, List.reverse_append, Nat.ofDigits_append, List.length_reverse, Nat.mul_comm,
    Nat.add_comm]
  rfl

theorem numeral_singleton (d : Nat) : numeral [d] = d :=
  Nat.ofDigits_singleton ..

theorem numeral_concat (ds : List Nat) (d : Nat) : numeral (ds ++ [d]) = numeral ds * 10 + d := by
  rw [numeral_append, numeral_singleton, List.length_singleton, Nat.pow_one]

theorem numeral_cons (d : Nat) (ds : List Nat) :
    numeral (d :: ds) = d * 10 ^ ds.length + numeral ds := by
  rw [← List.singleton_append, numeral_append, numeral_singleton]

/-- The decimal digits of `n`, `length` of them with zeros in front. -/
structure DigitsOf (length n : Nat) (digits : List Nat) : Prop where
  length : digits.length = length
  digit : ∀ d ∈ digits, d ≤ 9
  value : numeral digits = n

theorem digitsOf_nil : DigitsOf 0 0 [] :=
  ⟨rfl, by simp, rfl⟩

theorem DigitsOf.concat {length n d : Nat} {digits : List Nat} (front : DigitsOf length n digits)
    (last : d ≤ 9) : DigitsOf (length + 1) (n * 10 + d) (digits ++ [d]) where
  length := by rw [List.length_append, front.length, List.length_singleton]
  digit := by
    intro e inside
    rcases List.mem_append.mp inside with before | here
    · exact front.digit e before
    · rw [List.mem_singleton.mp here]
      exact last
  value := by rw [numeral_concat, front.value]

theorem DigitsOf.lt {length n : Nat} {digits : List Nat} (of : DigitsOf length n digits) :
    n < 10 ^ length := by
  rw [← of.value, ← of.length, numeral, ← List.length_reverse]
  refine Nat.ofDigits_lt_base_pow_length (by decide) fun d inside => ?_
  exact Nat.lt_succ_of_le (of.digit d (List.mem_reverse.mp inside))

theorem DigitsOf.unique {length n : Nat} {ds es : List Nat} (left : DigitsOf length n ds)
    (right : DigitsOf length n es) : ds = es := by
  apply List.reverse_inj.mp
  refine Nat.ofDigits_inj_of_len_eq (b := 10) (by decide) ?_ ?_ ?_
    (left.value.trans right.value.symm)
  · rw [List.length_reverse, List.length_reverse, left.length, right.length]
  · exact fun d inside => Nat.lt_succ_of_le (left.digit d (List.mem_reverse.mp inside))
  · exact fun e inside => Nat.lt_succ_of_le (right.digit e (List.mem_reverse.mp inside))

def signed (negative : Bool) (magnitude : Nat) : Int :=
  if negative then -(magnitude : Int) else magnitude

@[simp] theorem natAbs_signed (negative : Bool) (magnitude : Nat) :
    (signed negative magnitude).natAbs = magnitude := by
  cases negative <;> simp [signed]

theorem signed_natAbs (v : Int) : signed (decide (v < 0)) v.natAbs = v := by
  simp only [signed, decide_eq_true_eq]
  split <;> omega

theorem eq_signed_iff {negative : Bool} {v : Int} :
    v = signed negative v.natAbs ↔ v = 0 ∨ negative = decide (v < 0) := by
  cases negative <;> simp only [signed, Bool.false_eq_true, if_false, if_true,
    eq_comm (b := decide _), decide_eq_true_eq, decide_eq_false_iff_not] <;> omega

theorem int64Min_le_toInt (v : Int64) : int64Min ≤ v.toInt :=
  v.le_toInt

theorem toInt_le_int64Max (v : Int64) : v.toInt ≤ int64Max :=
  Int.le_of_lt_add_one v.toInt_lt

end RecordCodec.Decimal
