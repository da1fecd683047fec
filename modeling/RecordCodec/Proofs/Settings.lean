import RecordCodec.Libraries.Standard
import RecordCodec.Proofs.Value.Decimals
import RecordCodec.Settings

/-!
The signs of packed fields under the settings of a codec. Given signs are cut down to half a byte
and written as they are, while those that are read as negative are fixed. So a packed field is sound
for the integers whose sign the settings mark as it is read, and without given signs for all.
-/
namespace RecordCodec

open Decimal (Packed.isNegative Packed.lowNibble PackedSigns)

theorem Decimal.Packed.lowNibble_masked (b : UInt8) : lowNibble (b &&& 0x0F) = b.toNat % 16 := by
  have masked : (b &&& 0x0F).toNat = b.toNat % 2 ^ 4 := by
    rw [UInt8.toNat_and]
    exact Nat.and_two_pow_sub_one_eq_mod b.toNat 4
  rw [lowNibble, masked]
  exact Nat.mod_mod b.toNat 16

def Decimal.PackedSigns.masked (signs : PackedSigns) : PackedSigns :=
  ⟨signs.positive &&& 0x0F, signs.negative &&& 0x0F⟩

namespace Decimal.PackedSigns

variable (signs : PackedSigns)

theorem halfBytes_masked : signs.masked.HalfBytes := by
  have small (b : UInt8) : (b &&& 0x0F).toNat < 16 := by
    rw [UInt8.toNat_and]
    exact Nat.lt_of_le_of_lt Nat.and_le_right (by decide)
  exact ⟨small _, small _⟩

theorem marks_masked (v : Int) : signs.masked.Marks v ↔ signs.Marks v := by
  have same (b : UInt8) : Packed.isNegative (b &&& 0x0F) = Packed.isNegative b := by
    rw [Packed.isNegative, Packed.isNegative, Packed.lowNibble_masked, Packed.lowNibble]
  have sign : Packed.isNegative (signs.masked.ofInt v) = Packed.isNegative (signs.ofInt v) := by
    unfold ofInt masked
    split
    · exact same signs.negative
    · exact same signs.positive
  rw [Marks, Marks, sign]

end Decimal.PackedSigns

theorem Platform.conventional_ofArchitecture (architecture : UInt8) :
    (ofArchitecture architecture).packedSigns.Conventional := by
  unfold ofArchitecture
  dsimp only
  split <;> exact ⟨by decide, by decide⟩

namespace Settings

variable {s : Settings} {platform : Platform}

theorem signs_of_platform (h : s.platform = .ok platform) : platform.packedSigns =
    (s.packedSigns.map PackedSigns.masked).getD
      (Platform.ofArchitecture s.architecture).packedSigns := by
  obtain ⟨architecture, charset, signs⟩ := s
  cases charset with
  | none =>
    cases signs <;>
      · cases h
        rfl
  | some label =>
    obtain ⟨charset, -, h⟩ := Outcome.bind_ok.mp h
    cases signs <;>
      · cases h
        rfl

theorem halfBytes_of_platform (h : s.platform = .ok platform) : platform.packedSigns.HalfBytes := by
  rw [signs_of_platform h]
  cases s.packedSigns with
  | none => exact (Platform.conventional_ofArchitecture _).halfBytes
  | some signs => exact signs.halfBytes_masked

theorem marks_of_platform (h : s.platform = .ok platform) {v : Int} :
    platform.packedSigns.Marks v ↔ ∀ signs, s.packedSigns = some signs → signs.Marks v := by
  rw [signs_of_platform h]
  cases s.packedSigns with
  | none =>
    have usual := Platform.conventional_ofArchitecture s.architecture
    exact iff_of_true (.inr (usual.isNegative_ofInt v)) (by simp)
  | some signs => simpa using signs.marks_masked v

/-- On the platform of accepted settings a packed field keeps exactly the integers whose sign the
given signs, if there are any, mark. Sixteen bytes have to hold the scaled integer: a product that
they do not hold is another number. -/
theorem packed_integers_kept [Libraries] (accepted : s.platform = .ok platform) {l l' : Leaf}
    (typed : l.Typed) (on : l.place.platform = platform) {content : PackedContent}
    (kind : l.place.type.kind = .packed content) {scalar : Scalar} {v : Int}
    (integer : scalar.integer? = some v) (scales : l.place.Scales v)
    (assigned : l.assign scalar = .ok l') :
    l'.Keeps v ↔ ∀ signs, s.packedSigns = some signs → signs.Marks v := by
  subst on
  rw [Leaf.keeps_iff_marks typed kind (halfBytes_of_platform accepted) scales integer assigned,
    marks_of_platform accepted]

def withSigns (positive negative : UInt8) : Settings :=
  { usual with packedSigns := some ⟨positive, negative⟩ }

def signedPlace (positive negative : UInt8) : Place :=
  .top { FieldType.ofKind (.packed .number) "PA" with length := 2 }
    { Platform.openSystem with packedSigns := ⟨positive, negative⟩ }

theorem scales_signedPlace (positive negative : UInt8) (v : Int64) :
    (signedPlace positive negative).Scales v.toInt :=
  Place.scales_of_integer (Nat.zero_le 18) (s := .int v) rfl

theorem assign_signedPlace [Libraries] {positive negative : UInt8} {v : Int64} {bytes : List UInt8}
    (encoded : Decimal.Packed.encode ⟨positive, negative⟩ 2 v.toInt = .ok bytes) :
    (Leaf.fresh (signedPlace positive negative)).assign (.int v) =
      .ok ⟨signedPlace positive negative, .packed .number bytes⟩ := by
  refine (Leaf.assign_packed (scales_signedPlace positive negative v) rfl).mpr ⟨bytes, ?_, rfl⟩
  have counted : (signedPlace positive negative).type.CountsDigits :=
    show 2 * 2 - 1 < UInt32.size by decide
  rw [Place.unit_whole rfl, Int.mul_one]
  exact (PackedField.encode_ok counted).mpr
    ⟨Decimal.int64Min_le_toInt v, Decimal.toInt_le_int64Max v, encoded⟩

theorem sample_integer_kept :
    (withSigns 0xFA 0xBD).platform = .ok (signedPlace 0x0A 0x0D).platform ∧
    (Leaf.fresh (signedPlace 0x0A 0x0D)).assign (.int (-5)) =
      .ok ⟨signedPlace 0x0A 0x0D, .packed .number [0x00, 0x5D]⟩ ∧
    (⟨signedPlace 0x0A 0x0D, .packed .number [0x00, 0x5D]⟩ : Leaf).Keeps (-5) := by
  have accepted : (withSigns 0xFA 0xBD).platform = .ok (signedPlace 0x0A 0x0D).platform := rfl
  have assigned : (Leaf.fresh (signedPlace 0x0A 0x0D)).assign (.int (-5)) =
      .ok ⟨signedPlace 0x0A 0x0D, .packed .number [0x00, 0x5D]⟩ :=
    assign_signedPlace (Decimal.Packed.encode_ok.mpr
      ⟨Decimal.Packed.lengthFor_le_iff.mpr ⟨by decide, by decide⟩, rfl⟩)
  refine ⟨accepted, assigned, ?_⟩
  refine (packed_integers_kept accepted (Leaf.typed_fresh rfl) rfl rfl rfl
    (scales_signedPlace 0x0A 0x0D (-5)) assigned).mpr ?_
  rintro _ ⟨⟩
  exact .inr (by decide)

theorem five_read_as_minus_five :
    (withSigns 0x0B 0x0D).platform = .ok (signedPlace 0x0B 0x0D).platform ∧
    (Leaf.fresh (signedPlace 0x0B 0x0D)).assign (.int 5) =
      .ok ⟨signedPlace 0x0B 0x0D, .packed .number [0x00, 0x5B]⟩ ∧
    (⟨signedPlace 0x0B 0x0D, .packed .number [0x00, 0x5B]⟩ : Leaf).int64 = .ok (-5) :=
  ⟨rfl, assign_signedPlace (Decimal.Packed.encode_ok.mpr
    ⟨Decimal.Packed.lengthFor_le_iff.mpr ⟨by decide, by decide⟩, rfl⟩), rfl⟩

end Settings

end RecordCodec
