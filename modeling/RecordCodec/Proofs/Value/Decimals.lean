import RecordCodec.Proofs.Value.Transfer
import RecordCodec.Proofs.Value.WellFormed

/-!
Integers in packed fields. A field reads the integer that was assigned to it again where the half
byte written for its sign is read as that sign, and records carry the field as it is.
-/
namespace RecordCodec

open Decimal (Packed.decode Packed.isNegative PackedSigns)

/-- The half byte that is written for the sign of `v` is read as that sign. Zero has none. -/
def Decimal.PackedSigns.Marks (signs : PackedSigns) (v : Int) : Prop :=
  v = 0 ∨ Packed.isNegative (signs.ofInt v) = decide (v < 0)

theorem Decimal.PackedSigns.marks_mul {signs : PackedSigns} {v unit : Int}
    (positive : 0 < unit) : signs.Marks (v * unit) ↔ signs.Marks v := by
  have negative : v * unit < 0 ↔ v < 0 :=
    ⟨fun h => neg_of_mul_neg_left h positive.le, fun h => mul_neg_of_neg_of_pos h positive⟩
  have zero : v * unit = 0 ↔ v = 0 := mul_eq_zero_iff_right positive.ne'
  simp only [Marks, ofInt, negative, zero]

def Scalar.integer? : Scalar → Option Int
  | .int v => some v.toInt
  | .uint v => some v.toNat
  | _ => none

/-- The digits that a packed field of the length holds are counted in a word of four bytes. -/
def FieldType.CountsDigits (t : FieldType) : Prop :=
  2 * t.length - 1 < UInt32.size

/-- A packed field counts its digits; other kinds have none to count. -/
def FieldType.CountsPacked (t : FieldType) : Prop :=
  ∀ {content : PackedContent}, t.kind = .packed content → t.CountsDigits

namespace Place

/-- Sixteen bytes hold the power of ten of a field and its product with `v`. -/
structure Scales (p : Place) (v : Int) : Prop where
  unit : p.type.fraction ≤ 38
  low : int128Min ≤ v * 10 ^ p.type.fraction
  high : v * 10 ^ p.type.fraction ≤ int128Max

variable {p : Place} {v raw : Int}

theorem unit_eq (held : p.type.fraction ≤ 38) : p.unit = 10 ^ p.type.fraction := by
  have power : ((Nat.pow 10 p.type.fraction : Nat) : Int) = 10 ^ p.type.fraction :=
    Int.natCast_pow 10 p.type.fraction
  have bound : (10 : Int) ^ p.type.fraction ≤ 10 ^ 38 := pow_le_pow_right₀ (by decide) held
  rw [unit, power]
  refine wrap128_eq ?_ (bound.trans (by decide))
  exact le_trans (by decide) (pow_nonneg (by decide : (0 : Int) ≤ 10) _)

theorem unit_whole (whole : p.type.fraction = 0) : p.unit = 1 := by
  rw [unit_eq (whole ▸ Nat.zero_le 38), whole, pow_zero]

theorem unit_pos (held : p.type.fraction ≤ 38) : 0 < p.unit := by
  rw [unit_eq held]
  exact pow_pos (by decide) _

theorem scales_of_word (digits : p.type.fraction ≤ 18) (low : int64Min ≤ v)
    (high : v ≤ uint64Max) : p.Scales v := by
  have positive : (0 : Int) < 10 ^ p.type.fraction := pow_pos (by decide) _
  have bound : (10 : Int) ^ p.type.fraction ≤ 10 ^ 18 := pow_le_pow_right₀ (by decide) digits
  simp only [int64Min, uint64Max] at low high
  refine ⟨by omega, ?_, ?_⟩
  · simp only [int128Min]
    nlinarith
  · simp only [int128Max]
    nlinarith

theorem scales_of_integer (digits : p.type.fraction ≤ 18) {s : Scalar}
    (integer : s.integer? = some v) : p.Scales v := by
  cases s with
  | int n =>
    cases integer
    have low := n.le_toInt
    have high := n.toInt_lt
    exact scales_of_word digits (by simpa [int64Min] using low) (by simp only [uint64Max]; omega)
  | uint n =>
    cases integer
    have high := n.toNat_lt
    exact scales_of_word digits (by simp only [int64Min]; omega) (by simp only [uint64Max]; omega)
  | float | text | bytes => cases integer

theorem scaled_integer [Libraries] (scales : p.Scales v) {s : Scalar}
    (integer : s.integer? = some v) :
    p.scaled s = .ok (v * p.unit) := by
  have held : wrap128 (v * p.unit) = v * p.unit := by
    rw [unit_eq scales.unit]
    exact wrap128_eq scales.low scales.high
  cases s with
  | int | uint =>
    cases integer
    rw [scaled, held]
  | float | text | bytes => cases integer

theorem unscaled_ok (held : p.type.fraction ≤ 38) :
    p.unscaled raw = .ok v ↔ raw = v * p.unit := by
  have unit : p.unit ≠ 0 := (unit_pos held).ne'
  rw [unscaled, Outcome.when_ok, Except.ok.injEq]
  constructor
  · rintro ⟨whole, rfl⟩
    exact (Int.ediv_mul_cancel_of_emod_eq_zero whole).symm
  · rintro rfl
    exact ⟨Int.mul_emod_left v p.unit, Int.mul_ediv_cancel v unit⟩

theorem toInt64_ok {w : Int} : p.toInt64 w = .ok v ↔ w = v ∧ int64Min ≤ v ∧ v ≤ int64Max := by
  constructor
  · intro h
    obtain ⟨rfl, bounds⟩ := within_ok h
    exact ⟨rfl, bounds⟩
  · rintro ⟨rfl, bounds⟩
    exact if_pos bounds

/-- What decimal fields do with a number: one of 64 bits is encoded, and every other one is out of
range as those are that do not fit. -/
def encodeHeld (p : Place) (encode : Int → Except Decimal.Fault (List UInt8)) (v : Int) :
    Except FieldFault (List UInt8) :=
  match Decimal.int64? v with
  | none => .error (p.outOfRange (Text.ofInt v))
  | some v => (encode v).mapError fun _ => p.outOfRange (Text.ofInt v)

variable {encode : Int → Except Decimal.Fault (List UInt8)} {bytes : List UInt8}

theorem encodeHeld_ok : p.encodeHeld encode v = .ok bytes ↔
    int64Min ≤ v ∧ v ≤ int64Max ∧ encode v = .ok bytes := by
  rw [encodeHeld, Decimal.int64?]
  by_cases bounds : int64Min ≤ v ∧ v ≤ int64Max
  · rw [if_pos bounds, ← and_assoc, and_iff_right bounds]
    exact Outcome.mapError_ok
  · rw [if_neg bounds, ← and_assoc, iff_false_right fun h => bounds h.1]
    rintro ⟨⟩

theorem encodeHeld_error {fault : FieldFault} (h : p.encodeHeld encode v = .error fault) :
    fault = p.outOfRange (Text.ofInt v) := by
  unfold encodeHeld at h
  split at h
  · cases h
    rfl
  · rename_i held taken
    unfold Decimal.int64? at taken
    split at taken <;> cases taken
    cases encoded : encode v with
    | error _ => rw [encoded] at h; cases h; rfl
    | ok bytes => rw [encoded] at h; cases h

end Place

namespace PackedField

variable {p : Place} {v : Int} {bytes : List UInt8}

theorem encode_iff : encode p v = .ok bytes ↔ int64Min ≤ v ∧ v ≤ int64Max ∧
    exceeds p v = false ∧ Decimal.Packed.encode p.platform.packedSigns
      (if p.type.length = 0 then Decimal.Packed.lengthFor v else p.type.length) v = .ok bytes := by
  rw [← Bool.not_eq_true, ← Outcome.unless_ok]
  exact Place.encodeHeld_ok

theorem of_encode (h : encode p v = .ok bytes) : int64Min ≤ v ∧ v ≤ int64Max ∧
    Decimal.Packed.encode p.platform.packedSigns
      (if p.type.length = 0 then Decimal.Packed.lengthFor v else p.type.length) v = .ok bytes := by
  obtain ⟨low, high, -, encoded⟩ := encode_iff.mp h
  exact ⟨low, high, encoded⟩

theorem not_exceeds (counted : p.type.CountsDigits)
    (encoded : Decimal.Packed.encode p.platform.packedSigns
      (if p.type.length = 0 then Decimal.Packed.lengthFor v else p.type.length) v = .ok bytes) :
    exceeds p v = false := by
  have fits := Decimal.Packed.exists_encode_iff.mp ⟨bytes, encoded⟩
  by_cases varying : p.type.length = 0
  · simp [exceeds, varying]
  · rw [if_neg varying, Decimal.Packed.lengthFor_le_iff] at fits
    have held : digitCapacity p = 2 * p.type.length - 1 := Nat.mod_eq_of_lt counted
    have small : ¬ 10 ^ (2 * p.type.length - 1) ≤ v.natAbs := Nat.not_le.mpr fits.2
    simp [exceeds, held, small]

theorem encode_ok (counted : p.type.CountsDigits) : encode p v = .ok bytes ↔
    int64Min ≤ v ∧ v ≤ int64Max ∧ Decimal.Packed.encode p.platform.packedSigns
      (if p.type.length = 0 then Decimal.Packed.lengthFor v else p.type.length) v = .ok bytes := by
  refine ⟨of_encode, fun ⟨low, high, encoded⟩ => ?_⟩
  exact encode_iff.mpr ⟨low, high, not_exceeds counted encoded, encoded⟩

theorem assign_integer [Libraries] (scales : p.Scales v) {content : PackedContent} {s : Scalar}
    (integer : s.integer? = some v) : assign p content s = encode p (v * p.unit) := by
  cases s with
  | int | uint =>
    show (p.scaled _ >>= encode p) = _
    rw [Place.scaled_integer scales integer]
    rfl
  | float | text | bytes => cases integer

theorem decode_encode (half : p.platform.packedSigns.HalfBytes) (h : encode p v = .ok bytes) :
    Packed.decode bytes = .ok v ↔ p.platform.packedSigns.Marks v := by
  obtain ⟨low, high, encoded⟩ := of_encode h
  rw [Decimal.Packed.decode_encode half encoded, Decimal.eq_signed_iff]
  exact and_iff_left ⟨low, high⟩

theorem ne_nil_of_encode (h : encode p v = .ok bytes) : bytes ≠ [] :=
  Decimal.Packed.ne_nil_of_encode (of_encode h).2.2

theorem int64_of_encode (held : p.type.fraction ≤ 38) (h : encode p (v * p.unit) = .ok bytes) :
    int64Min ≤ v ∧ v ≤ int64Max := by
  obtain ⟨low, high, -⟩ := of_encode h
  have unit : 1 ≤ p.unit := Place.unit_pos held
  rcases le_total 0 v with positive | negative
  · exact ⟨le_trans (by decide) positive, le_trans (le_mul_of_one_le_right positive unit) high⟩
  · exact ⟨le_trans low (mul_le_of_one_le_right negative unit), le_trans negative (by decide)⟩

theorem occupies_encode (h : encode p v = .ok bytes) : Occupies 1 p.type.length bytes.length := by
  obtain ⟨low, high, encoded⟩ := of_encode h
  have length := Decimal.Packed.length_encode encoded
  by_cases fixed : p.type.length = 0
  · rw [if_pos fixed] at length
    have ten : Decimal.Packed.lengthFor v ≤ 10 := by
      rw [Decimal.Packed.lengthFor_le_iff]
      simp only [int64Min, int64Max] at low high
      omega
    rw [fixed, occupies_variable, length]
    exact Nat.lt_of_le_of_lt (Nat.add_le_add_right ten 1) (by decide)
  · rw [if_neg fixed] at length
    exact (occupies_fixed fixed).mpr length

end PackedField

namespace Leaf

theorem assign_packed [Libraries] {p : Place} {content : PackedContent} {before : List UInt8}
    {s : Scalar}
    {v : Int} (scales : p.Scales v) (integer : s.integer? = some v) {l' : Leaf} :
    (⟨p, .packed content before⟩ : Leaf).assign s = .ok l' ↔
      ∃ bytes, PackedField.encode p (v * p.unit) = .ok bytes ∧
        l' = ⟨p, .packed content bytes⟩ := by
  rw [← PackedField.assign_integer scales integer]
  constructor
  · intro assigned
    obtain ⟨_, changed, rfl⟩ := Outcome.map_ok.mp assigned
    obtain ⟨bytes, packed, rfl⟩ := Outcome.map_ok.mp changed
    exact ⟨bytes, packed, rfl⟩
  · rintro ⟨bytes, packed, rfl⟩
    exact Outcome.map_ok.mpr ⟨_, Outcome.map_ok.mpr ⟨bytes, packed, rfl⟩, rfl⟩

theorem int64_packed {p : Place} (held : p.type.fraction ≤ 38) {content : PackedContent}
    {bytes : List UInt8} {v : Int} : (⟨p, .packed content bytes⟩ : Leaf).int64 = .ok v ↔
      Packed.decode bytes = .ok (v * p.unit) ∧ int64Min ≤ v ∧ v ≤ int64Max := by
  have steps : (⟨p, .packed content bytes⟩ : Leaf).int64 =
      ((PackedField.number bytes >>= p.unscaled) >>= p.toInt64) := rfl
  rw [steps, Outcome.bind_ok]
  constructor
  · rintro ⟨whole, read, narrowed⟩
    obtain ⟨raw, number, unscaled⟩ := Outcome.bind_ok.mp read
    obtain ⟨rfl, bounds⟩ := Place.toInt64_ok.mp narrowed
    rw [(Place.unscaled_ok held).mp unscaled] at number
    exact ⟨Outcome.mapError_ok.mp number, bounds⟩
  · rintro ⟨read, bounds⟩
    refine ⟨v, Outcome.bind_ok.mpr ⟨_, Outcome.mapError_ok.mpr read, ?_⟩, ?_⟩
    · exact (Place.unscaled_ok held).mpr rfl
    · exact Place.toInt64_ok.mpr ⟨rfl, bounds⟩

theorem exchange_packed {p : Place} (content : PackedContent) {bytes : List UInt8}
    (given : bytes ≠ []) (extent : Occupies 1 p.type.length bytes.length) (order : ByteOrder) :
    ∃ record, (∀ r : Request, r.isFollowUp = false →
        store order r ⟨p, .packed content bytes⟩ = .ok (.whole record)) ∧
      ∀ (before : List UInt8) (r : Request) (taken rest : List UInt8), r.isFollowUp = false →
        parse r ⟨order, taken, record ++ rest⟩ ⟨p, .packed content before⟩ =
          (⟨p, .packed content bytes⟩, .ok (.done ⟨order, record.reverse ++ taken, rest⟩)) := by
  refine ⟨order.frame 1 p.type.length bytes, fun r first => ?_, ?_⟩
  · have filled : bytes.isEmpty = false := by simpa using given
    simp [store, first, storeDecimal, filled, storeShort_eq p bytes order]
  · intro before r taken rest first
    simp [parse, first, readContent, (consumes_readShort extent order).whole, Except.map]

/-- A value that reads as `v`, at once and after a store and a read into any value of its field. -/
structure Keeps (l : Leaf) (v : Int) : Prop where
  now : l.int64 = .ok v
  moved : ∀ order : ByteOrder, ∃ record,
    (∀ r : Request, r.isFollowUp = false → l.store order r = .ok (.whole record)) ∧
    ∀ target : Leaf, target.Typed → target.place = l.place →
      ∀ (r : Request) (taken rest : List UInt8), r.isFollowUp = false → ∃ read : Leaf,
        target.parse r ⟨order, taken, record ++ rest⟩ =
          (read, .ok (.done ⟨order, record.reverse ++ taken, rest⟩)) ∧ read.int64 = .ok v

theorem Typed.packed {l : Leaf} (typed : l.Typed) {content : PackedContent}
    (kind : l.place.type.kind = .packed content) :
    ∃ bytes, l = ⟨l.place, .packed content bytes⟩ := by
  have held := Content.IsOf.of_kind typed
  rw [kind] at held
  obtain ⟨bytes, same⟩ := held
  exact ⟨bytes, by rw [← same]⟩

/-- A packed field keeps an integer that it accepts exactly if the signs of its platform mark it. -/
theorem keeps_iff_marks [Libraries] {l l' : Leaf} (typed : l.Typed) {content : PackedContent}
    (kind : l.place.type.kind = .packed content)
    (half : l.place.platform.packedSigns.HalfBytes) {s : Scalar} {v : Int}
    (scales : l.place.Scales v) (integer : s.integer? = some v) (assigned : l.assign s = .ok l') :
    l'.Keeps v ↔ l.place.platform.packedSigns.Marks v := by
  obtain ⟨before, same⟩ := typed.packed kind
  generalize l.place = p at same kind half scales ⊢
  subst same
  obtain ⟨bytes, encoded, rfl⟩ := (assign_packed scales integer).mp assigned
  have read := PackedField.decode_encode half encoded
  rw [PackedSigns.marks_mul (Place.unit_pos scales.unit)] at read
  constructor
  · intro kept
    exact read.mp ((int64_packed scales.unit).mp kept.now).1
  · intro marks
    have now : (⟨p, .packed content bytes⟩ : Leaf).int64 = .ok v := by
      refine (int64_packed scales.unit).mpr ⟨read.mpr marks, ?_⟩
      exact PackedField.int64_of_encode scales.unit encoded
    refine ⟨now, fun order => ?_⟩
    obtain ⟨record, stored, parsed⟩ := exchange_packed content
      (PackedField.ne_nil_of_encode encoded) (PackedField.occupies_encode encoded) order
    refine ⟨record, stored, fun target typed' there r taken rest first => ?_⟩
    obtain ⟨bytes', same'⟩ := typed'.packed (by rw [there]; exact kind)
    rw [there] at same'
    rw [same']
    exact ⟨_, parsed bytes' r taken rest first, now⟩

end Leaf

end RecordCodec
