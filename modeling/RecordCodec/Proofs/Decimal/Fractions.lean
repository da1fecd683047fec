import Mathlib.Algebra.Order.Group.Nat
import RecordCodec.Libraries.Decimals
import RecordCodec.Proofs.Decimal.Scaled

/-!
The fractions of an integer and a scale are exact: digits are read one by one, dropped zeros leave
the fraction the same, and zeros are added as long as the mantissa is below its bound.
-/
namespace RecordCodec

open Text (isDigit digitValue digitsFrom readNat?_eq_some)

theorem Text.le_digitsFrom (acc : Nat) (s : List Char) : acc ≤ digitsFrom acc s := by
  induction s generalizing acc with
  | nil => exact le_rfl
  | cons c rest ih =>
    have longer : acc ≤ acc * 10 + digitValue c := by omega
    exact longer.trans (ih _)

theorem Text.digitsFrom_cons (acc : Nat) (c : Char) (s : List Char) :
    digitsFrom acc (c :: s) = digitsFrom (acc * 10 + digitValue c) s :=
  List.foldl_cons ..

theorem Text.digitsFrom_append (acc : Nat) (s t : List Char) :
    digitsFrom acc (s ++ t) = digitsFrom (digitsFrom acc s) t :=
  List.foldl_append

namespace Decimal

open Library (mantissaBound maxScale)

namespace Scaled

variable {negative : Bool} {mantissa scale : Nat} {s rest : List Char}

theorem toInt_signed (v : Int) (scale : Nat) : toInt ⟨v < 0, v.natAbs, scale⟩ = v := by
  by_cases negative : v < 0
  · simp only [toInt, negative, decide_true, if_true]
    omega
  · simp only [toInt, negative, decide_false, Bool.false_eq_true, if_false]
    omega

/-! ### Reading digits -/

theorem longer_lt {c : Char} (fits : digitsFrom mantissa (c :: s) < mantissaBound) :
    mantissa * 10 + digitValue c < mantissaBound :=
  (Text.le_digitsFrom (mantissa * 10 + digitValue c) s).trans_lt fits

theorem readDigits?_whole {seen : Bool} (digits : s.all isDigit = true)
    (fits : digitsFrom mantissa s < mantissaBound) :
    readDigits? negative false seen mantissa 0 (s ++ rest) =
      readDigits? negative false (seen || !s.isEmpty) (digitsFrom mantissa s) 0 rest := by
  induction s generalizing mantissa seen with
  | nil => simp [digitsFrom]
  | cons c s ih =>
    obtain ⟨digit, digits⟩ := Bool.and_eq_true_iff.mp digits
    have longer := longer_lt fits
    have next : readDigits? negative false true (mantissa * 10 + digitValue c) 0 (s ++ rest) = _ :=
      ih digits fits
    rw [List.cons_append, readDigits?, Text.digitsFrom_cons]
    simpa [digit, longer] using next

theorem readDigits?_fraction (digits : s.all isDigit = true)
    (fits : digitsFrom mantissa s < mantissaBound) (room : scale + s.length ≤ maxScale) :
    readDigits? negative true true mantissa scale s =
      some ⟨negative, digitsFrom mantissa s, scale + s.length⟩ := by
  induction s generalizing mantissa scale with
  | nil => rfl
  | cons c s ih =>
    obtain ⟨digit, digits⟩ := Bool.and_eq_true_iff.mp digits
    have longer := longer_lt fits
    rw [List.length_cons] at room
    have more : ¬maxScale ≤ scale := by omega
    have goes : endsAt mantissa scale c = false := by simp [endsAt, more]
    have next := ih digits fits (show scale + 1 + s.length ≤ maxScale by omega)
    have width : scale + (c :: s).length = scale + 1 + s.length := by
      rw [List.length_cons]
      omega
    rw [readDigits?, width, Text.digitsFrom_cons]
    simpa [goes, digit, longer] using next

theorem readDigits?_point {whole fraction : List Char} (given : whole ≠ [])
    (digits : (whole ++ fraction).all isDigit = true)
    (fits : digitsFrom 0 (whole ++ fraction) < mantissaBound)
    (room : fraction.length ≤ maxScale) :
    readDigits? negative false false 0 0 (whole ++ '.' :: fraction) =
      some ⟨negative, digitsFrom 0 (whole ++ fraction), fraction.length⟩ := by
  rw [List.all_append, Bool.and_eq_true] at digits
  rw [Text.digitsFrom_append] at fits ⊢
  have front : digitsFrom 0 whole < mantissaBound := (Text.le_digitsFrom _ _).trans_lt fits
  have seen : (false || !whole.isEmpty) = true := by simp [given]
  have noDigit : isDigit '.' = false := by decide
  have behind : readDigits? negative true true (digitsFrom 0 whole) 0 fraction = _ :=
    readDigits?_fraction digits.2 fits (show 0 + fraction.length ≤ maxScale by omega)
  rw [readDigits?_whole digits.1 front, seen, readDigits?]
  simpa [noDigit] using behind

theorem readPlain?_of_digit {c : Char} (digit : isDigit c = true) :
    readPlain? (c :: rest) = readDigits? false false false 0 0 (c :: rest) := by
  unfold readPlain?
  split
  · exact absurd (show isDigit '-' = true by simp_all) (by decide)
  · exact absurd (show isDigit '+' = true by simp_all) (by decide)
  · rfl

theorem ofText?_pointed {f : Nat} {n : Int} (room : f ≤ maxScale)
    (fits : n.natAbs < mantissaBound) :
    ofText? (pointed f n) = some ⟨n < 0, n.natAbs, f⟩ := by
  obtain ⟨first, whole, rest, parts, length, shown⟩ := pointed_eq f n
  obtain ⟨-, digits, value⟩ := readNat?_eq_some.mp parts
  have read (negative : Bool) :
      readDigits? negative false false 0 0 (first :: whole ++ '.' :: rest) =
        some ⟨negative, n.natAbs, f⟩ := by
    rw [readDigits?_point (List.cons_ne_nil first whole) digits (value ▸ fits) (length ▸ room),
      value, length]
  have plain : readPlain? (pointed f n) = some ⟨n < 0, n.natAbs, f⟩ := by
    rw [shown]
    by_cases below : n < 0
    · rw [if_pos below, readPlain?, read]
      simp [below]
    · have digit : isDigit first = true := List.all_eq_true.mp digits first (by simp)
      rw [if_neg below, List.cons_append, readPlain?_of_digit digit, ← List.cons_append, read]
      simp [below]
  rw [ofText?, plain, Option.some_or]

/-! ### Trailing zeros -/

theorem stripZeros_scaled (mantissa scale : Nat) :
    (stripZeros mantissa scale).2 ≤ scale ∧
      (stripZeros mantissa scale).1 * 10 ^ (scale - (stripZeros mantissa scale).2) = mantissa := by
  induction scale generalizing mantissa with
  | zero => simp [stripZeros]
  | succ scale ih =>
    unfold stripZeros
    split
    · rename_i zero
      obtain ⟨shorter, same⟩ := ih (mantissa / 10)
      refine ⟨shorter.trans (Nat.le_succ scale), ?_⟩
      rw [Nat.succ_sub shorter, Nat.pow_succ, ← Nat.mul_assoc, same]
      omega
    · simp

theorem toInt_mul (d : Scaled) (times : Nat) :
    d.toInt * 10 ^ times = toInt { d with mantissa := d.mantissa * 10 ^ times } := by
  unfold toInt
  split <;> simp

theorem toInt_normalize (d : Scaled) :
    d.normalize.toInt * 10 ^ (d.scale - d.normalize.scale) = d.toInt := by
  obtain ⟨-, same⟩ := stripZeros_scaled d.mantissa d.scale
  rw [toInt_mul]
  exact congrArg (fun mantissa => toInt { d with mantissa }) same

theorem grow_eq {d : Scaled} {times : Nat} (fits : d.mantissa * 10 ^ times < mantissaBound) :
    d.grow times = ⟨d.negative, d.mantissa * 10 ^ times, d.scale + times⟩ := by
  induction times generalizing d with
  | zero => simp [grow]
  | succ times ih =>
    have power : d.mantissa * 10 ^ (times + 1) = d.mantissa * 10 * 10 ^ times := by
      rw [Nat.pow_succ, Nat.mul_assoc, Nat.mul_comm 10]
    have width : d.scale + (times + 1) = d.scale + 1 + times := by omega
    rw [power] at fits ⊢
    have step : d.mantissa * 10 < mantissaBound :=
      (Nat.le_mul_of_pos_right _ (Nat.pow_pos (by decide : 0 < 10))).trans_lt fits
    rw [grow, if_pos step, ih fits, width]

theorem natAbs_toInt (d : Scaled) : d.toInt.natAbs = d.mantissa := by
  unfold toInt
  split <;> simp

theorem text_of_ofScaled? {f : Nat} {n : Int} {d : Scaled} (fractional : f ≠ 0)
    (made : ofScaled? n f = some d) : d.text = pointed f n := by
  obtain ⟨-, same⟩ := Option.ite_none_right_eq_some.mp made
  cases same
  rw [text, if_neg fractional, toInt_signed]

theorem toInt_rescale {d : Scaled} {f : Nat} (shorter : d.scale ≤ f)
    (fits : (d.toInt * 10 ^ (f - d.scale)).natAbs < mantissaBound) :
    (d.rescale f).toInt = d.toInt * 10 ^ (f - d.scale) := by
  rw [toInt_mul, natAbs_toInt] at fits
  rw [rescale, if_neg (Nat.not_lt.mpr shorter), grow_eq fits, toInt_mul]
  rfl

end Scaled

theorem fractions_exact : fractions.Exact where
  printed _ _ _ fractional made := Scaled.text_of_ofScaled? fractional made
  parsed n f _ room fits := ⟨_, Scaled.ofText?_pointed room fits, Scaled.toInt_signed n f, rfl⟩
  normalized d := ⟨(Scaled.stripZeros_scaled d.mantissa d.scale).1, Scaled.toInt_normalize d⟩
  rescaled _ _ shorter _ fits := Scaled.toInt_rescale shorter fits

end Decimal

end RecordCodec
