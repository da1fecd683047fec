import Mathlib.Algebra.Ring.Int.Defs
import RecordCodec.Decimal.Scaled
import RecordCodec.Proofs.Text.Words

/-!
Scaled integers as texts, and back. What is printed has a point in front of the last digits, as many
as there are fractional ones. A library of exact fractions reads those digits, drops the trailing
zeros and, for the field, puts them back again. So printed integers are read as themselves.
-/
namespace RecordCodec.Decimal

open Library (mantissaBound maxScale)

/-- What a library does exactly, with at most 28 fractional digits and mantissas of 96 bits. -/
structure Library.Exact (library : Library) : Prop where
  printed : ∀ n f d, f ≠ 0 → library.ofScaled? n f = some d → library.text d = pointed f n
  parsed : ∀ n f, f ≠ 0 → f ≤ maxScale → n.natAbs < mantissaBound →
    ∃ d, library.ofText? (pointed f n) = some d ∧ library.mantissa d = n ∧ library.scale d = f
  normalized : ∀ d, library.scale (library.normalize d) ≤ library.scale d ∧
    library.mantissa (library.normalize d) *
      10 ^ (library.scale d - library.scale (library.normalize d)) = library.mantissa d
  rescaled : ∀ d f, library.scale d ≤ f → f ≤ maxScale →
    (library.mantissa d * 10 ^ (f - library.scale d)).natAbs < mantissaBound →
    library.mantissa (library.rescale d f) = library.mantissa d * 10 ^ (f - library.scale d)

variable {fraction : Nat} {v : Int}

theorem held_of_fits (fits : v.natAbs < mantissaBound) : int128Min ≤ v ∧ v ≤ int128Max := by
  have bound : mantissaBound = 79228162514264337593543950336 := rfl
  rw [bound] at fits
  simp only [int128Min, int128Max]
  omega

/-! ### Digits and a point -/

theorem pointed_eq (fraction : Nat) (v : Int) :
    ∃ first whole rest, Text.readNat? (first :: whole ++ rest) = some v.natAbs ∧
      rest.length = fraction ∧
      pointed fraction v =
        if v < 0 then '-' :: (first :: whole ++ '.' :: rest)
        else first :: whole ++ '.' :: rest := by
  let digits := Text.padZeros (fraction + 1) (Text.ofNat v.natAbs)
  have wide : fraction < digits.length := by
    simp only [digits, Text.padZeros, List.length_append, List.length_replicate]
    omega
  obtain ⟨first, whole, front⟩ := List.exists_cons_of_ne_nil
    (show digits.take (digits.length - fraction) ≠ [] by
      rw [← List.length_pos_iff, List.length_take]
      omega)
  refine ⟨first, whole, digits.drop (digits.length - fraction), ?_, ?_, ?_⟩
  · rw [← front, List.take_append_drop]
    exact Text.readNat?_padZeros (Text.readNat?_ofNat v.natAbs) (fraction + 1)
  · rw [List.length_drop]
    omega
  · rw [← front]
    rfl

theorem noBlank_pointed (fraction : Nat) (v : Int) : Text.NoBlank (pointed fraction v) := by
  obtain ⟨first, front, rest, read, -, shown⟩ := pointed_eq fraction v
  obtain ⟨-, digits, -⟩ := Text.readNat?_eq_some.mp read
  have plain : Text.NoBlank (first :: front ++ '.' :: rest) := by
    intro c inside
    have digit (listed : c ∈ first :: front ++ rest) : Text.isBlank c = false :=
      Text.isBlank_of_isDigit (List.all_eq_true.mp digits c listed)
    rcases List.mem_append.mp inside with before | behind
    · exact digit (List.mem_append_left _ before)
    · rcases List.mem_cons.mp behind with rfl | after
      · decide
      · exact digit (List.mem_append_right _ after)
  rw [shown]
  split
  · exact plain.cons (by decide)
  · exact plain

theorem afterPlus_pointed (fraction : Nat) (v : Int) :
    Text.afterLead? ['+'] (pointed fraction v) = none := by
  obtain ⟨first, front, rest, read, -, shown⟩ := pointed_eq fraction v
  obtain ⟨-, digits, -⟩ := Text.readNat?_eq_some.mp read
  have digit : Text.isDigit first = true := List.all_eq_true.mp digits first (by simp)
  refine if_neg fun plus => ?_
  rw [shown] at plus
  split at plus
  · cases plus
  · have same : '+' = first := by simpa [List.isPrefixOf] using plus
    rw [← same] at digit
    exact absurd digit (by decide)

/-! ### Printed integers -/

section Printed

variable [Libraries] (exact : Libraries.decimals.Exact)

include exact

theorem showScaled_eq_pointed (fractional : fraction ≠ 0) (v : Int) :
    showScaled fraction v = pointed fraction v := by
  rw [showScaled, if_neg fractional]
  split
  · rename_i d made
    exact exact.printed v fraction d fractional made
  · rfl

theorem rescale_normalize {d : Libraries.decimals.Fraction}
    (room : Libraries.decimals.scale d ≤ maxScale)
    (fits : (Libraries.decimals.mantissa d).natAbs < mantissaBound) :
    Libraries.decimals.mantissa
        (Libraries.decimals.rescale (Libraries.decimals.normalize d) (Libraries.decimals.scale d)) =
      Libraries.decimals.mantissa d := by
  obtain ⟨shorter, same⟩ := exact.normalized d
  rw [exact.rescaled _ _ shorter room (by rwa [same]), same]

/-- A printed integer is read as itself, with at most 28 fractional digits and 96 bits. -/
theorem readScaled?_showScaled (room : fraction ≤ maxScale) (fits : v.natAbs < mantissaBound) :
    readScaled? fraction (showScaled fraction v) = some v := by
  by_cases whole : fraction = 0
  · have held := held_of_fits fits
    rw [showScaled, if_pos whole, readScaled?, if_pos whole,
      Text.trim_of_noBlank (Text.noBlank_ofInt v), Text.afterPlus_ofInt]
    simp [Text.readIntBetween?, Text.readInt?_ofInt, held]
  · obtain ⟨d, read, value, scale⟩ := exact.parsed v fraction whole room fits
    have shorter := (exact.normalized d).1
    have restored := rescale_normalize exact (d := d) (scale ▸ room) (value ▸ fits)
    rw [scale] at shorter restored
    rw [readScaled?, showScaled_eq_pointed exact whole, Text.trim_of_noBlank (noBlank_pointed _ v),
      afterPlus_pointed, if_neg whole, Option.none_or, Option.getD_none, read, Option.bind_some]
    exact (if_pos shorter).trans (congrArg some (restored.trans value))

end Printed

end RecordCodec.Decimal
