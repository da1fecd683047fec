import RecordCodec.Decimal.Packed
import RecordCodec.Proofs.Decimal.Digits
import RecordCodec.Proofs.Outcome

/-!
Packed decimals in both directions. What is read is the signed number that the half bytes spell, if
an `Int64` holds it; what is written spells the number again. The two meet where the half bytes
written for the signs are read as such.
-/
namespace RecordCodec.Decimal

/-- The half bytes that stand for a positive and a negative number in packed decimals. -/
structure PackedSigns.Conventional (signs : PackedSigns) : Prop where
  positive : signs.positive ∈ [0xA, 0xC, 0xE, 0xF]
  negative : signs.negative ∈ [0xB, 0xD]

structure PackedSigns.HalfBytes (signs : PackedSigns) : Prop where
  positive : signs.positive.toNat < 16
  negative : signs.negative.toNat < 16

theorem PackedSigns.HalfBytes.ofInt {signs : PackedSigns} (half : signs.HalfBytes) (v : Int) :
    (signs.ofInt v).toNat < 16 := by
  unfold PackedSigns.ofInt
  split
  · exact half.negative
  · exact half.positive

namespace Packed

def nibbles (bytes : List UInt8) : List Nat :=
  bytes.flatMap fun b => [highNibble b, lowNibble b]

def digits (bytes : List UInt8) : List Nat :=
  (nibbles bytes).dropLast

def hasNegativeSign (bytes : List UInt8) : Bool :=
  (nibbles bytes).getLast? == some 0xB || (nibbles bytes).getLast? == some 0xD

def value (bytes : List UInt8) : Int :=
  signed (hasNegativeSign bytes) (numeral (digits bytes))

theorem nibbles_concat (body : List UInt8) (last : UInt8) :
    nibbles (body ++ [last]) = nibbles body ++ [highNibble last] ++ [lowNibble last] := by
  simp [nibbles]

theorem nibbles_cons (b : UInt8) (rest : List UInt8) :
    nibbles (b :: rest) = highNibble b :: lowNibble b :: nibbles rest := rfl

@[simp] theorem length_nibbles (bytes : List UInt8) :
    (nibbles bytes).length = 2 * bytes.length := by
  induction bytes with
  | nil => rfl
  | cons b rest ih =>
    rw [nibbles_cons, List.length_cons, List.length_cons, ih, List.length_cons]
    omega

theorem digits_concat (body : List UInt8) (last : UInt8) :
    digits (body ++ [last]) = nibbles body ++ [highNibble last] := by
  rw [digits, nibbles_concat, List.dropLast_concat]

theorem hasNegativeSign_concat (body : List UInt8) (last : UInt8) :
    hasNegativeSign (body ++ [last]) = isNegative last := by
  simp [hasNegativeSign, nibbles_concat, isNegative]

section Reading

variable {length position acc : Nat} {v : Int}

theorem decodeFrom_single (last : UInt8) :
    decodeFrom length position acc [last] = .ok v ↔ highNibble last ≤ 9 ∧
      v = signed (isNegative last) (acc * 10 + highNibble last) ∧ int64Min ≤ v ∧ v ≤ int64Max := by
  rw [decodeFrom, Outcome.unless_ok, Nat.not_lt]
  refine and_congr_right fun _ => ?_
  dsimp only
  rw [Outcome.when_ok]
  constructor
  · rintro ⟨bounds, same⟩
    cases same
    exact ⟨rfl, bounds⟩
  · rintro ⟨rfl, bounds⟩
    exact ⟨bounds, rfl⟩

theorem decodeFrom_cons (b : UInt8) {rest : List UInt8} (more : rest ≠ []) :
    decodeFrom length position acc (b :: rest) = .ok v ↔ highNibble b ≤ 9 ∧ lowNibble b ≤ 9 ∧
      ((acc * 100 + highNibble b * 10 + lowNibble b : Nat) : Int) ≤ int64Max ∧
      decodeFrom length (position + 1) (acc * 100 + highNibble b * 10 + lowNibble b) rest =
        .ok v := by
  rw [decodeFrom.eq_3 _ _ _ _ _ more]
  dsimp only
  rw [Outcome.unless_ok, Outcome.unless_ok, Outcome.unless_ok, Nat.not_lt, Nat.not_lt, Int.not_lt]

theorem front_le_int64Max {negative : Bool} {front k low : Nat}
    (above : int64Min ≤ signed negative (front * 10 ^ (k + 1) + low))
    (below : signed negative (front * 10 ^ (k + 1) + low) ≤ int64Max) :
    (front : Int) ≤ int64Max := by
  have tenfold : front * 10 ≤ front * 10 ^ (k + 1) + low := by
    have power : 10 ≤ 10 ^ (k + 1) := Nat.le_self_pow (Nat.succ_ne_zero k) 10
    exact Nat.le_add_right_of_le (Nat.mul_le_mul_left front power)
  generalize front * 10 ^ (k + 1) + low = m at above below tenfold
  cases negative <;>
    simp only [signed, int64Min, int64Max, if_true, Bool.false_eq_true, if_false] at * <;> omega

theorem decodeFrom_ok (body : List UInt8) (last : UInt8) :
    decodeFrom length position acc (body ++ [last]) = .ok v ↔
      (∀ d ∈ nibbles body ++ [highNibble last], d ≤ 9) ∧
      v = signed (isNegative last) (acc * 10 ^ (2 * body.length + 1) +
        numeral (nibbles body ++ [highNibble last])) ∧ int64Min ≤ v ∧ v ≤ int64Max := by
  induction body generalizing position acc with
  | nil =>
    rw [List.nil_append, decodeFrom_single]
    simp [nibbles, numeral_singleton]
  | cons b rest ih =>
    have value : acc * 10 ^ (2 * (b :: rest).length + 1) +
          numeral (nibbles (b :: rest) ++ [highNibble last]) =
        (acc * 100 + highNibble b * 10 + lowNibble b) * 10 ^ (2 * rest.length + 1) +
          numeral (nibbles rest ++ [highNibble last]) := by
      have width : 2 * (b :: rest).length + 1 = 2 * rest.length + 1 + 1 + 1 := by
        rw [List.length_cons]
        omega
      rw [nibbles_cons, List.cons_append, List.cons_append, numeral_cons, numeral_cons, width,
        List.length_cons, List.length_append, length_nibbles, List.length_singleton]
      ring
    rw [value, List.cons_append, decodeFrom_cons b (by simp), ih, nibbles_cons, List.cons_append,
      List.cons_append, List.forall_mem_cons, List.forall_mem_cons]
    constructor
    · rintro ⟨high, low, -, digits, read⟩
      exact ⟨⟨high, low, digits⟩, read⟩
    · rintro ⟨⟨high, low, digits⟩, rfl, bounds⟩
      -- the early stop for too many digits refuses no number that an `Int64` holds
      exact ⟨high, low, front_le_int64Max bounds.1 bounds.2, digits, rfl, bounds⟩

end Reading

theorem exists_last {bytes : List UInt8} (given : bytes ≠ []) :
    ∃ body last, bytes = body ++ [last] :=
  ⟨_, _, (List.dropLast_append_getLast given).symm⟩

theorem decode_ok {bytes : List UInt8} (given : bytes ≠ []) {v : Int} :
    decode bytes = .ok v ↔
      (∀ d ∈ digits bytes, d ≤ 9) ∧ v = value bytes ∧ int64Min ≤ v ∧ v ≤ int64Max := by
  obtain ⟨body, last, rfl⟩ := exists_last given
  rw [decode, decodeFrom_ok, value, digits_concat, hasNegativeSign_concat, Nat.zero_mul,
    Nat.zero_add]

theorem decode_zeros_append {bytes : List UInt8} {v : Int} (read : decode bytes = .ok v)
    (count : Nat) : decode (List.replicate count 0 ++ bytes) = .ok v := by
  induction count with
  | zero => exact read
  | succ count ih =>
    rw [List.replicate_succ, List.cons_append]
    by_cases empty : List.replicate count 0 ++ bytes = []
    · rw [empty] at ih ⊢
      cases ih
      rfl
    · obtain ⟨digit, same, bounds⟩ := (decode_ok empty).mp ih
      have front : nibbles (0 :: (List.replicate count 0 ++ bytes)) =
          0 :: 0 :: nibbles (List.replicate count 0 ++ bytes) := rfl
      have given : nibbles (List.replicate count 0 ++ bytes) ≠ [] := by
        rw [← List.length_pos_iff, length_nibbles]
        have := List.length_pos_iff.mpr empty
        omega
      have zeros : digits (0 :: (List.replicate count 0 ++ bytes)) =
          0 :: 0 :: digits (List.replicate count 0 ++ bytes) := by
        rw [digits, front, List.dropLast_cons_of_ne_nil (by simp),
          List.dropLast_cons_of_ne_nil given]
        rfl
      refine (decode_ok (List.cons_ne_nil _ _)).mpr ⟨?_, ?_, bounds⟩
      · rw [zeros]
        simpa using digit
      · have sign : hasNegativeSign (0 :: (List.replicate count 0 ++ bytes)) =
            hasNegativeSign (List.replicate count 0 ++ bytes) := by
          simp only [hasNegativeSign, front, List.getLast?_cons_cons]
          rw [List.getLast?_cons, List.getLast?_eq_some_getLast given]
          rfl
        rw [same, value, value, sign, zeros, numeral_cons, numeral_cons, Nat.zero_mul, Nat.zero_mul,
          Nat.zero_add, Nat.zero_add]

section Writing

variable {signs : PackedSigns} {length : Nat} {v : Int} {bytes : List UInt8}

theorem nibbles_of_toNat {b : UInt8} {high low : Nat} (toNat : b.toNat = high * 16 + low)
    (half : low < 16) : highNibble b = high ∧ lowNibble b = low := by
  unfold highNibble lowNibble
  omega

theorem nibbles_lastByte (half : signs.HalfBytes) (v : Int) :
    highNibble (lastByte signs v) = v.natAbs % 10 ∧
      lowNibble (lastByte signs v) = (signs.ofInt v).toNat := by
  have sign := half.ofInt v
  refine nibbles_of_toNat ?_ sign
  have shifted : (UInt8.ofNat (v.natAbs % 10 * 16)).toNat = 2 ^ 4 * (v.natAbs % 10) := by
    rw [UInt8.toNat_ofNat']
    omega
  rw [lastByte, UInt8.toNat_or, shifted, ← Nat.two_pow_add_eq_or_of_lt sign, Nat.mul_comm]

theorem digitsOf_digitPairs {count n : Nat} (small : n < 10 ^ (2 * count)) :
    DigitsOf (2 * count) n (nibbles (digitPairs count n)) := by
  induction count generalizing n with
  | zero =>
    have zero : n = 0 := by simpa using small
    subst zero
    exact digitsOf_nil
  | succ count ih =>
    have front : n / 100 < 10 ^ (2 * count) := by
      rw [Nat.mul_succ, Nat.pow_add] at small
      omega
    have pair : (UInt8.ofNat (n / 10 % 10 * 16 + n % 10)).toNat = n / 10 % 10 * 16 + n % 10 := by
      rw [UInt8.toNat_ofNat']
      omega
    obtain ⟨high, low⟩ := nibbles_of_toNat pair (by omega)
    have digits := ((ih front).concat (d := n / 10 % 10) (by omega)).concat (d := n % 10) (by omega)
    have number : (n / 100 * 10 + n / 10 % 10) * 10 + n % 10 = n := by omega
    rw [number] at digits
    rw [digitPairs, nibbles_concat, high, low]
    exact digits

theorem lengthFor_le_iff :
    lengthFor v ≤ length ↔ 1 ≤ length ∧ v.natAbs < 10 ^ (2 * length - 1) := by
  have digits := digitCount_pos v.natAbs
  rw [lengthFor]
  by_cases empty : length = 0
  · subst empty
    omega
  · have capacity : digitCount v.natAbs ≤ 2 * length - 1 ↔ v.natAbs < 10 ^ (2 * length - 1) :=
      digitCount_le_iff (by omega)
    rw [← capacity]
    omega

theorem encode_ok : encode signs length v = .ok bytes ↔ lengthFor v ≤ length ∧
    bytes = digitPairs (length - 1) (v.natAbs / 10) ++ [lastByte signs v] := by
  have room : ¬ (length = 0 ∨ capacity length < digitCount v.natAbs) ↔ lengthFor v ≤ length := by
    have digits := digitCount_pos v.natAbs
    rw [lengthFor, capacity]
    omega
  rw [encode, Outcome.unless_ok, room, Except.ok.injEq, eq_comm (b := bytes)]

theorem exists_encode_iff : (∃ bytes, encode signs length v = .ok bytes) ↔ lengthFor v ≤ length :=
  ⟨fun ⟨_, h⟩ => (encode_ok.mp h).1, fun fits => ⟨_, encode_ok.mpr ⟨fits, rfl⟩⟩⟩

@[simp] theorem length_digitPairs (count n : Nat) : (digitPairs count n).length = count := by
  induction count generalizing n with
  | zero => rfl
  | succ count ih => simp [digitPairs, ih]

theorem length_encode (h : encode signs length v = .ok bytes) : bytes.length = length := by
  obtain ⟨fits, rfl⟩ := encode_ok.mp h
  have given := (lengthFor_le_iff.mp fits).1
  simp only [List.length_append, length_digitPairs, List.length_singleton]
  omega

theorem ne_nil_of_encode (h : encode signs length v = .ok bytes) : bytes ≠ [] := by
  obtain ⟨-, rfl⟩ := encode_ok.mp h
  exact List.append_ne_nil_of_right_ne_nil _ (List.cons_ne_nil _ _)

theorem spells_of_encode (half : signs.HalfBytes) (h : encode signs length v = .ok bytes) :
    DigitsOf (2 * length - 1) v.natAbs (digits bytes) ∧
      nibbles bytes = digits bytes ++ [(signs.ofInt v).toNat] := by
  obtain ⟨fits, rfl⟩ := encode_ok.mp h
  obtain ⟨given, bound⟩ := lengthFor_le_iff.mp fits
  obtain ⟨high, low⟩ := nibbles_lastByte half v
  rw [digits_concat, nibbles_concat, high, low]
  refine ⟨?_, rfl⟩
  have width : 2 * length - 1 = 2 * (length - 1) + 1 := by omega
  have small : v.natAbs / 10 < 10 ^ (2 * (length - 1)) := by
    rw [width, Nat.pow_succ] at bound
    omega
  have digits := (digitsOf_digitPairs small).concat (d := v.natAbs % 10) (by omega)
  rw [Nat.div_add_mod'] at digits
  rw [width]
  exact digits

/-- Reading what was written gives the magnitude with the sign that the half byte is read as. -/
theorem decode_encode (half : signs.HalfBytes) (h : encode signs length v = .ok bytes) {w : Int} :
    decode bytes = .ok w ↔
      w = signed (isNegative (signs.ofInt v)) v.natAbs ∧ int64Min ≤ w ∧ w ≤ int64Max := by
  obtain ⟨digits, nibbles⟩ := spells_of_encode half h
  have sign : hasNegativeSign bytes = isNegative (signs.ofInt v) := by
    have half := half.ofInt v
    rw [hasNegativeSign, nibbles, List.getLast?_concat, isNegative, lowNibble,
      Nat.mod_eq_of_lt half]
    simp
  rw [decode_ok (ne_nil_of_encode h), value, sign, digits.value]
  exact and_iff_right digits.digit

theorem encode_decode (half : signs.HalfBytes) (given : bytes ≠ []) (h : decode bytes = .ok v) :
    ∃ packed, encode signs bytes.length v = .ok packed ∧
      nibbles packed = digits bytes ++ [(signs.ofInt v).toNat] := by
  obtain ⟨digit, same, -⟩ := (decode_ok given).mp h
  have magnitude : v.natAbs = numeral (digits bytes) := by rw [same, value, natAbs_signed]
  have spelt : DigitsOf (2 * bytes.length - 1) v.natAbs (digits bytes) := by
    refine ⟨?_, digit, magnitude.symm⟩
    rw [digits, List.length_dropLast, length_nibbles]
  have fits : lengthFor v ≤ bytes.length :=
    lengthFor_le_iff.mpr ⟨List.length_pos_iff.mpr given, spelt.lt⟩
  obtain ⟨packed, h'⟩ := exists_encode_iff.mpr fits
  obtain ⟨digits', nibbles'⟩ := spells_of_encode half h'
  refine ⟨packed, h', ?_⟩
  rw [nibbles', digits'.unique spelt]

end Writing

end Packed

namespace PackedSigns.Conventional

variable {signs : PackedSigns}

theorem halfBytes (conventional : signs.Conventional) : signs.HalfBytes where
  positive := by
    have all : ∀ sign ∈ ([0xA, 0xC, 0xE, 0xF] : List UInt8), sign.toNat < 16 := by simp
    exact all _ conventional.positive
  negative := by
    have all : ∀ sign ∈ ([0xB, 0xD] : List UInt8), sign.toNat < 16 := by simp
    exact all _ conventional.negative

theorem isNegative_ofInt (conventional : signs.Conventional) (v : Int) :
    Packed.isNegative (signs.ofInt v) = decide (v < 0) := by
  unfold ofInt
  by_cases negative : v < 0
  · have all : ∀ sign ∈ ([0xB, 0xD] : List UInt8), Packed.isNegative sign = true := by
      simp [Packed.isNegative, Packed.lowNibble]
    simp [negative, all _ conventional.negative]
  · have all : ∀ sign ∈ ([0xA, 0xC, 0xE, 0xF] : List UInt8), Packed.isNegative sign = false := by
      simp [Packed.isNegative, Packed.lowNibble]
    simp [negative, all _ conventional.positive]

theorem le_ofInt (conventional : signs.Conventional) (v : Int) :
    0xA ≤ (signs.ofInt v).toNat := by
  unfold ofInt
  split
  · have all : ∀ sign ∈ ([0xB, 0xD] : List UInt8), 0xA ≤ sign.toNat := by simp
    exact all _ conventional.negative
  · have all : ∀ sign ∈ ([0xA, 0xC, 0xE, 0xF] : List UInt8), 0xA ≤ sign.toNat := by simp
    exact all _ conventional.positive

end PackedSigns.Conventional

namespace Packed

/-- Numbers and packed fields correspond: a number is written where it fits and read back, and a
field is read where it spells an `Int64`, which is written with the same digits again. -/
structure Exact (signs : PackedSigns) : Prop where
  accepts : ∀ (v : Int64) (n : Nat),
    (∃ bytes, encode signs n v.toInt = .ok bytes) ↔ lengthFor v.toInt ≤ n
  capacity : ∀ (v : Int64) (n : Nat),
    lengthFor v.toInt ≤ n ↔ 1 ≤ n ∧ v.toInt.natAbs < 10 ^ (2 * n - 1)
  restores : ∀ (v : Int64) (n : Nat) (bytes : List UInt8), encode signs n v.toInt = .ok bytes →
    bytes.length = n ∧ decode bytes = .ok v.toInt
  reads : ∀ bytes ≠ [], ∀ v, decode bytes = .ok v ↔
    (∀ d ∈ digits bytes, d ≤ 9) ∧ v = value bytes ∧ int64Min ≤ v ∧ v ≤ int64Max
  rewrites : ∀ bytes ≠ [], ∀ v, decode bytes = .ok v → ∃ packed,
    encode signs bytes.length v = .ok packed ∧
      nibbles packed = digits bytes ++ [(signs.ofInt v).toNat]

/-- With conventional signs the packed codec is exact in both directions. -/
theorem exact_of_conventional {signs : PackedSigns} (conventional : signs.Conventional) :
    Exact signs where
  accepts _ _ := exists_encode_iff
  capacity _ _ := lengthFor_le_iff
  restores v n bytes h := by
    refine ⟨length_encode h, (decode_encode conventional.halfBytes h).mpr ⟨?_, ?_, ?_⟩⟩
    · rw [conventional.isNegative_ofInt, signed_natAbs]
    · exact int64Min_le_toInt v
    · exact toInt_le_int64Max v
  reads _ given _ := decode_ok given
  rewrites _ given _ h := encode_decode conventional.halfBytes given h

theorem openSystem_exact : PackedSigns.openSystem.Conventional ∧ Exact .openSystem ∧
    encode .openSystem 10 int64Min =
      .ok [0x92, 0x23, 0x37, 0x20, 0x36, 0x85, 0x47, 0x75, 0x80, 0x8B] :=
  ⟨⟨by decide, by decide⟩, exact_of_conventional ⟨by decide, by decide⟩,
    encode_ok.mpr ⟨lengthFor_le_iff.mpr ⟨by decide, by decide⟩, rfl⟩⟩

end Packed

end RecordCodec.Decimal
