import RecordCodec.Decimal.Zoned
import RecordCodec.Proofs.Decimal.Digits
import RecordCodec.Proofs.Outcome

/-!
Unpacked decimals in both directions. What is read is the signed number that the low half bytes
spell, if its magnitude is at most the greatest `Int64`; what is written spells the number again.
The least `Int64` has a greater magnitude: it can be written and not be read.
-/
namespace RecordCodec.Decimal

/-- Zones that fit into half a byte and tell the signs apart. -/
structure Zones.Distinct (zones : Zones) : Prop where
  digit : zones.digit.toNat < 16
  negative : zones.negative.toNat < 16
  apart : zones.negative ≠ zones.digit

theorem Zones.distinct_openSystem : Zones.openSystem.Distinct :=
  ⟨by decide, by decide, by decide⟩

theorem Zones.distinct_mainframe : Zones.mainframe.Distinct :=
  ⟨by decide, by decide, by decide⟩

def Zones.ofInt (zones : Zones) (v : Int) : UInt8 :=
  if v < 0 then zones.negative else zones.digit

theorem Zones.Distinct.ofInt {zones : Zones} (distinct : zones.Distinct) (v : Int) :
    (zones.ofInt v).toNat < 16 ∧ (zones.ofInt v != zones.digit) = decide (v < 0) := by
  unfold Zones.ofInt
  by_cases negative : v < 0
  · simp [negative, distinct.negative, distinct.apart]
  · simp [negative, distinct.digit]

namespace Zoned

def digits (bytes : List UInt8) : List Nat :=
  bytes.map digitOf

def zonesOf (bytes : List UInt8) : List Nat :=
  bytes.map fun b => b.toNat / 16

def value (zones : Zones) (bytes : List UInt8) : Int :=
  signed (isNegative zones bytes) (numeral (digits bytes))

section Reading

variable {zones : Zones} {length position acc : Nat} {bytes : List UInt8}

theorem magnitudeFrom_cons (b : UInt8) (rest : List UInt8) {m : Nat} :
    magnitudeFrom length position acc (b :: rest) = .ok m ↔ digitOf b ≤ 9 ∧
      ((acc * 10 + digitOf b : Nat) : Int) ≤ int64Max ∧
      magnitudeFrom length (position + 1) (acc * 10 + digitOf b) rest = .ok m := by
  rw [magnitudeFrom]
  dsimp only
  rw [Outcome.unless_ok, Outcome.unless_ok, Nat.not_lt, Int.not_lt]

/-- The magnitude is read when the digits are digits and it is at most the greatest `Int64`, as the
digits read so far always are. -/
theorem magnitudeFrom_ok {m : Nat} (held : (acc : Int) ≤ int64Max) :
    magnitudeFrom length position acc bytes = .ok m ↔ (∀ d ∈ digits bytes, d ≤ 9) ∧
      m = acc * 10 ^ bytes.length + numeral (digits bytes) ∧ (m : Int) ≤ int64Max := by
  induction bytes generalizing position acc with
  | nil =>
    rw [magnitudeFrom]
    constructor
    · intro h
      cases h
      exact ⟨by simp [digits], by simp [digits, numeral], held⟩
    · rintro ⟨-, rfl, -⟩
      simp [digits, numeral]
  | cons b rest ih =>
    have value : acc * 10 ^ (b :: rest).length + numeral (digits (b :: rest)) =
        (acc * 10 + digitOf b) * 10 ^ rest.length + numeral (digits rest) := by
      have cons : digits (b :: rest) = digitOf b :: digits rest := rfl
      have width : (digits rest).length = rest.length := List.length_map ..
      rw [cons, numeral_cons, List.length_cons, width]
      ring
    rw [value, magnitudeFrom_cons]
    have cons : (∀ d ∈ digits (b :: rest), d ≤ 9) ↔ digitOf b ≤ 9 ∧ ∀ d ∈ digits rest, d ≤ 9 :=
      List.forall_mem_cons
    rw [cons]
    constructor
    · rintro ⟨digit, small, read⟩
      obtain ⟨others, same, fits⟩ := (ih small).mp read
      exact ⟨⟨digit, others⟩, same, fits⟩
    · rintro ⟨⟨digit, others⟩, same, fits⟩
      have small : ((acc * 10 + digitOf b : Nat) : Int) ≤ int64Max := by
        -- the digits that follow can only make the number greater
        have power : 1 ≤ 10 ^ rest.length := Nat.one_le_pow _ _ (by decide)
        have front := Nat.mul_le_mul_left (acc * 10 + digitOf b) power
        omega
      exact ⟨digit, small, (ih small).mpr ⟨others, same, fits⟩⟩

theorem signed_bounds (negative : Bool) (m : Nat) :
    int64Min < signed negative m ∧ signed negative m ≤ int64Max ↔ (m : Int) ≤ int64Max := by
  cases negative <;>
    simp only [signed, int64Min, int64Max, if_true, Bool.false_eq_true, if_false] <;> omega

/-- A field is read when its digits are digits and its number is an `Int64`, but not the least. -/
theorem decode_ok {v : Int} : decode zones bytes = .ok v ↔
    (∀ d ∈ digits bytes, d ≤ 9) ∧ v = value zones bytes ∧ int64Min < v ∧ v ≤ int64Max := by
  have read : ∀ m, magnitudeFrom bytes.length 0 0 bytes = .ok m ↔
      (∀ d ∈ digits bytes, d ≤ 9) ∧ m = numeral (digits bytes) ∧ (m : Int) ≤ int64Max := by
    intro m
    rw [magnitudeFrom_ok (by decide), Nat.zero_mul, Nat.zero_add]
  constructor
  · intro h
    obtain ⟨m, magnitude, h⟩ := Outcome.bind_ok.mp h
    obtain ⟨digit, rfl, fits⟩ := (read m).mp magnitude
    cases h
    exact ⟨digit, rfl, (signed_bounds (isNegative zones bytes) _).mpr fits⟩
  · rintro ⟨digit, rfl, bounds⟩
    have fits := (signed_bounds _ _).mp bounds
    rw [decode, (read _).mpr ⟨digit, rfl, fits⟩]
    rfl

end Reading

section Writing

variable {zones : Zones} {length : Nat} {v : Int} {bytes : List UInt8}

theorem toNat_digitByte {zone : UInt8} (half : zone.toNat < 16) {d : Nat} (small : d < 16) :
    (digitByte zone d).toNat = zone.toNat * 16 + d := by
  have shifted : (zone <<< 4).toNat = 2 ^ 4 * zone.toNat := by
    rw [UInt8.toNat_shiftLeft]
    show zone.toNat <<< 4 % 256 = _
    rw [Nat.shiftLeft_eq]
    omega
  have low : (UInt8.ofNat d).toNat = d := by
    rw [UInt8.toNat_ofNat']
    omega
  rw [digitByte, UInt8.toNat_or, shifted, low, ← Nat.two_pow_add_eq_or_of_lt small, Nat.mul_comm]

theorem digitOf_digitByte {zone : UInt8} (half : zone.toNat < 16) {d : Nat} (small : d < 16) :
    digitOf (digitByte zone d) = d := by
  rw [digitOf, toNat_digitByte half small]
  omega

theorem zone_digitByte {zone : UInt8} (half : zone.toNat < 16) {d : Nat} (small : d < 16) :
    digitByte zone d >>> 4 = zone := by
  apply UInt8.toNat_inj.mp
  rw [UInt8.toNat_shiftRight, toNat_digitByte half small]
  show (zone.toNat * 16 + d) >>> 4 = _
  rw [Nat.shiftRight_eq_div_pow]
  omega

theorem decode_zeros_append (half : zones.digit.toNat < 16) (read : decode zones bytes = .ok v)
    (count : Nat) : decode zones (List.replicate count (zeroDigit zones) ++ bytes) = .ok v := by
  have byte : zeroDigit zones = digitByte zones.digit 0 := by
    rw [zeroDigit, digitByte]
    exact (UInt8.or_zero).symm
  have digit : digitOf (zeroDigit zones) = 0 := byte ▸ digitOf_digitByte half (by decide)
  have zone : zeroDigit zones >>> 4 = zones.digit := byte ▸ zone_digitByte half (by decide)
  induction count with
  | zero => exact read
  | succ count ih =>
    obtain ⟨small, same, bounds⟩ := decode_ok.mp ih
    rw [List.replicate_succ, List.cons_append]
    have zeros : digits (zeroDigit zones :: (List.replicate count (zeroDigit zones) ++ bytes)) =
        0 :: digits (List.replicate count (zeroDigit zones) ++ bytes) := by
      rw [digits, List.map_cons, digit]
      rfl
    have sign : isNegative zones
          (zeroDigit zones :: (List.replicate count (zeroDigit zones) ++ bytes)) =
        isNegative zones (List.replicate count (zeroDigit zones) ++ bytes) := by
      rw [isNegative, isNegative, List.getLast?_cons]
      cases (List.replicate count (zeroDigit zones) ++ bytes).getLast? with
      | none => simp [zone]
      | some last => rfl
    refine decode_ok.mpr ⟨?_, ?_, bounds⟩
    · rw [zeros]
      simpa using small
    · rw [same, value, value, sign, zeros, numeral_cons, Nat.zero_mul, Nat.zero_add]

theorem lastByte_eq (distinct : zones.Distinct) (v : Int) :
    lastByte zones v = digitByte (zones.ofInt v) (v.natAbs % 10) := by
  unfold lastByte Zones.ofInt
  dsimp only
  split
  · have low : digitByte zones.digit (v.natAbs % 10) &&& 0x0F = UInt8.ofNat (v.natAbs % 10) := by
      apply UInt8.toNat_inj.mp
      have mask : (0x0F : UInt8).toNat = 2 ^ 4 - 1 := rfl
      rw [UInt8.toNat_and, toNat_digitByte distinct.digit (by omega), mask,
        Nat.and_two_pow_sub_one_eq_mod, UInt8.toNat_ofNat']
      omega
    rw [low]
    rfl
  · rfl

@[simp] theorem length_digitBytes (zone : UInt8) (count n : Nat) :
    (digitBytes zone count n).length = count := by
  induction count generalizing n with
  | zero => rfl
  | succ count ih => simp [digitBytes, ih]

theorem digitsOf_digitBytes {zone : UInt8} (half : zone.toNat < 16) {count n : Nat}
    (small : n < 10 ^ count) : DigitsOf count n (digits (digitBytes zone count n)) := by
  induction count generalizing n with
  | zero =>
    have zero : n = 0 := by simpa using small
    subst zero
    exact digitsOf_nil
  | succ count ih =>
    have front : n / 10 < 10 ^ count := by
      rw [Nat.pow_succ] at small
      omega
    have split := (ih front).concat (d := n % 10) (by omega)
    rw [Nat.div_add_mod'] at split
    rw [digitBytes, digits, List.map_append, List.map_singleton,
      digitOf_digitByte half (by omega)]
    exact split

theorem zonesOf_digitBytes {zone : UInt8} (half : zone.toNat < 16) (count n : Nat) :
    zonesOf (digitBytes zone count n) = List.replicate count zone.toNat := by
  induction count generalizing n with
  | zero => rfl
  | succ count ih =>
    have here : (digitByte zone (n % 10)).toNat / 16 = zone.toNat := by
      rw [toNat_digitByte half (by omega)]
      omega
    have front := ih (n / 10)
    rw [zonesOf] at front
    rw [digitBytes, zonesOf, List.map_append, List.map_singleton, front, here,
      ← List.replicate_succ']

theorem lengthFor_le_iff : lengthFor v ≤ length ↔ 1 ≤ length ∧ v.natAbs < 10 ^ length := by
  constructor
  · intro fits
    have given : 1 ≤ length := Nat.le_trans (digitCount_pos v.natAbs) fits
    exact ⟨given, (digitCount_le_iff given).mp fits⟩
  · rintro ⟨given, bound⟩
    exact (digitCount_le_iff given).mpr bound

theorem encode_ok : encode zones length v = .ok bytes ↔ lengthFor v ≤ length ∧
    bytes = digitBytes zones.digit (length - 1) (v.natAbs / 10) ++ [lastByte zones v] := by
  have room : ¬ (length = 0 ∨ length < digitCount v.natAbs) ↔ lengthFor v ≤ length := by
    have digits := digitCount_pos v.natAbs
    rw [lengthFor]
    omega
  rw [encode, Outcome.unless_ok, room, Except.ok.injEq, eq_comm (b := bytes)]

theorem exists_encode_iff : (∃ bytes, encode zones length v = .ok bytes) ↔ lengthFor v ≤ length :=
  ⟨fun ⟨_, h⟩ => (encode_ok.mp h).1, fun fits => ⟨_, encode_ok.mpr ⟨fits, rfl⟩⟩⟩

theorem length_encode (h : encode zones length v = .ok bytes) : bytes.length = length := by
  obtain ⟨fits, rfl⟩ := encode_ok.mp h
  have given := (lengthFor_le_iff.mp fits).1
  simp only [List.length_append, length_digitBytes, List.length_singleton]
  omega

/-- What is written has the digits of the magnitude, all in the zone of digits but the last, which
is in the zone of the sign. -/
theorem spells_of_encode (distinct : zones.Distinct) (h : encode zones length v = .ok bytes) :
    DigitsOf length v.natAbs (digits bytes) ∧
      zonesOf bytes = List.replicate (length - 1) zones.digit.toNat ++ [(zones.ofInt v).toNat] ∧
      isNegative zones bytes = decide (v < 0) := by
  obtain ⟨fits, rfl⟩ := encode_ok.mp h
  obtain ⟨given, bound⟩ := lengthFor_le_iff.mp fits
  rw [lastByte_eq distinct]
  obtain ⟨half, sign⟩ := distinct.ofInt v
  have digit : v.natAbs % 10 < 16 := by omega
  refine ⟨?_, ?_, ?_⟩
  · have width : length - 1 + 1 = length := Nat.sub_add_cancel given
    have small : v.natAbs / 10 < 10 ^ (length - 1) := by
      rw [← width, Nat.pow_succ] at bound
      omega
    have split := (digitsOf_digitBytes distinct.digit small).concat (d := v.natAbs % 10) (by omega)
    rw [Nat.div_add_mod', width] at split
    rw [digits, List.map_append, List.map_singleton, digitOf_digitByte half digit]
    exact split
  · have front := zonesOf_digitBytes distinct.digit (length - 1) (v.natAbs / 10)
    rw [zonesOf] at front
    rw [zonesOf, List.map_append, List.map_singleton, front, toNat_digitByte half digit]
    congr 2
    omega
  · rw [isNegative, List.getLast?_concat]
    dsimp only
    rw [zone_digitByte half digit, sign]

theorem decode_encode (distinct : zones.Distinct) (h : encode zones length v = .ok bytes)
    (above : int64Min < v) (below : v ≤ int64Max) : decode zones bytes = .ok v := by
  obtain ⟨digits, -, sign⟩ := spells_of_encode distinct h
  refine decode_ok.mpr ⟨digits.digit, ?_, above, below⟩
  rw [value, sign, digits.value, signed_natAbs]

theorem encode_decode (distinct : zones.Distinct) (given : bytes ≠ [])
    (h : decode zones bytes = .ok v) :
    ∃ zoned, encode zones bytes.length v = .ok zoned ∧ digits zoned = digits bytes ∧
      zonesOf zoned = List.replicate (bytes.length - 1) zones.digit.toNat ++
        [(zones.ofInt v).toNat] := by
  obtain ⟨digit, same, -⟩ := decode_ok.mp h
  have magnitude : v.natAbs = numeral (digits bytes) := by rw [same, value, natAbs_signed]
  have spelt : DigitsOf bytes.length v.natAbs (digits bytes) :=
    ⟨List.length_map .., digit, magnitude.symm⟩
  have fits := lengthFor_le_iff.mpr ⟨List.length_pos_iff.mpr given, spelt.lt⟩
  obtain ⟨zoned, h'⟩ := exists_encode_iff.mpr fits
  obtain ⟨digits', zones', -⟩ := spells_of_encode distinct h'
  exact ⟨zoned, h', digits'.unique spelt, zones'⟩

end Writing

/-- Numbers and unpacked fields correspond, but for the least `Int64`: a number is written where it
fits and read back, and a field is read where it spells an `Int64`, which is written with the same
digits again. -/
structure ExactAboveLeast (zones : Zones) : Prop where
  accepts : ∀ (v : Int64) (n : Nat),
    (∃ bytes, encode zones n v.toInt = .ok bytes) ↔ lengthFor v.toInt ≤ n
  extent : ∀ (v : Int64) (n : Nat) (bytes : List UInt8), encode zones n v.toInt = .ok bytes →
    bytes.length = n
  restores : ∀ (v : Int64) (n : Nat) (bytes : List UInt8), encode zones n v.toInt = .ok bytes →
    (decode zones bytes = .ok v.toInt ↔ v ≠ Int64.minValue)
  reads : ∀ bytes ≠ [], ∀ v, decode zones bytes = .ok v ↔
    (∀ d ∈ digits bytes, d ≤ 9) ∧ v = value zones bytes ∧ int64Min < v ∧ v ≤ int64Max
  rewrites : ∀ bytes ≠ [], ∀ v, decode zones bytes = .ok v → ∃ zoned,
    encode zones bytes.length v = .ok zoned ∧ digits zoned = digits bytes ∧
      zonesOf zoned = List.replicate (bytes.length - 1) zones.digit.toNat ++
        [(zones.ofInt v).toNat]

theorem exactAboveLeast_of_distinct {zones : Zones} (distinct : zones.Distinct) :
    ExactAboveLeast zones where
  accepts _ _ := exists_encode_iff
  extent _ _ _ h := length_encode h
  restores v n bytes h := by
    constructor
    · rintro read rfl
      have bounds := (decode_ok.mp read).2.2
      exact absurd bounds.1 (by decide)
    · intro above
      have least : v.toInt ≠ int64Min := fun same => above (Int64.toInt_inj.mp same)
      have bound := int64Min_le_toInt v
      exact decode_encode distinct h (by omega) (toInt_le_int64Max v)
  reads _ _ _ := decode_ok
  rewrites _ given _ h := encode_decode distinct given h

/-- With the zones of either platform the unpacked codec is exact in both directions above the least
`Int64`. -/
theorem platforms_exact_above_least {zones : Zones}
    (known : zones ∈ [Zones.openSystem, Zones.mainframe]) : ExactAboveLeast zones := by
  refine exactAboveLeast_of_distinct ?_
  rcases List.mem_pair.mp known with rfl | rfl
  · exact Zones.distinct_openSystem
  · exact Zones.distinct_mainframe

theorem mainframe_exact_above_least :
    Zones.mainframe ∈ [Zones.openSystem, Zones.mainframe] ∧ ExactAboveLeast .mainframe ∧
    encode .mainframe 3 (-5) = .ok [0xF0, 0xF0, 0xD5] :=
  ⟨by decide, platforms_exact_above_least (by decide),
    encode_ok.mpr ⟨lengthFor_le_iff.mpr ⟨by decide, by decide⟩, rfl⟩⟩

theorem least_not_restored :
    encode .openSystem 19 Int64.minValue.toInt = .ok [0x39, 0x32, 0x32, 0x33, 0x33, 0x37, 0x32,
      0x30, 0x33, 0x36, 0x38, 0x35, 0x34, 0x37, 0x37, 0x35, 0x38, 0x30, 0x78] ∧
    decode .openSystem [0x39, 0x32, 0x32, 0x33, 0x33, 0x37, 0x32, 0x30, 0x33, 0x36, 0x38, 0x35,
      0x34, 0x37, 0x37, 0x35, 0x38, 0x30, 0x78] = .error (.overflow 9223372036854775808 19 19) :=
  ⟨encode_ok.mpr ⟨lengthFor_le_iff.mpr ⟨by decide, by decide⟩, rfl⟩, rfl⟩

end Zoned

end RecordCodec.Decimal
