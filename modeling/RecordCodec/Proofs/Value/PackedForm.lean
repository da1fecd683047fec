import RecordCodec.Libraries.Standard
import RecordCodec.Proofs.Value.Accessors
import RecordCodec.Proofs.Value.Extent

/-!
The half bytes that an assignment leaves in a packed field. Numbers and texts are written by the
codec, as digits and a sign. Raw bytes are taken as they are if they can be read, with zeros in
front of them, and reading asks for digits only: whether there is a sign is up to the bytes.
-/
namespace RecordCodec

namespace Decimal.Packed

/-- Bytes whose last half byte is one of those that stand for signs. -/
def EndsInSign (bytes : List UInt8) : Prop :=
  ∃ sign, (nibbles bytes).getLast? = some sign ∧ 0xA ≤ sign ∧ sign ≤ 0xF

theorem endsInSign_concat (body : List UInt8) (last : UInt8) :
    EndsInSign (body ++ [last]) ↔ 0xA ≤ lowNibble last := by
  have half : lowNibble last < 16 := Nat.mod_lt _ (by decide)
  rw [EndsInSign, nibbles_concat, List.getLast?_concat]
  constructor
  · rintro ⟨_, same, low, -⟩
    cases same
    exact low
  · intro low
    exact ⟨_, rfl, low, by omega⟩

theorem not_endsInSign_nil : ¬EndsInSign [] := nofun

theorem endsInSign_zeros_append (bytes : List UInt8) (count : Nat) :
    EndsInSign (List.replicate count 0 ++ bytes) ↔ EndsInSign bytes := by
  by_cases given : bytes = []
  · subst given
    cases count with
    | zero => exact Iff.rfl
    | succ count =>
      rw [List.append_nil, List.replicate_succ', endsInSign_concat]
      exact iff_of_false (by decide) not_endsInSign_nil
  · obtain ⟨body, last, rfl⟩ := exists_last given
    rw [← List.append_assoc, endsInSign_concat, endsInSign_concat]

end Decimal.Packed

open Decimal

namespace PackedField

open Packed (digits EndsInSign)

variable {p : Place} {bytes : List UInt8}

theorem form_encode (conventional : p.platform.packedSigns.Conventional) {v : Int}
    (h : encode p v = .ok bytes) : (∀ d ∈ digits bytes, d ≤ 9) ∧ EndsInSign bytes := by
  obtain ⟨-, -, encoded⟩ := of_encode h
  obtain ⟨spelled, behind⟩ := Packed.spells_of_encode conventional.halfBytes encoded
  refine ⟨spelled.digit, (p.platform.packedSigns.ofInt v).toNat, ?_, ?_, ?_⟩
  · rw [behind, List.getLast?_concat]
  · exact conventional.le_ofInt v
  · exact Nat.le_of_lt_succ (conventional.halfBytes.ofInt v)

theorem form_layout {raw : List UInt8} (given : 0 < p.type.length) (h : layout p raw = .ok bytes) :
    (∀ d ∈ digits bytes, d ≤ 9) ∧ (EndsInSign bytes ↔ EndsInSign raw) := by
  have extent := length_layout h given.ne'
  unfold layout at h
  obtain ⟨-, h⟩ := Outcome.unless_ok.mp h
  split at h
  · cases h
  · rename_i v decoded
    cases h
    have held := List.length_pos_iff.mp (extent ▸ given)
    have read := Packed.decode_zeros_append decoded (p.type.length - raw.length)
    exact ⟨((Packed.decode_ok held).mp read).1, Packed.endsInSign_zeros_append raw _⟩

end PackedField

namespace Leaf

open Packed (digits EndsInSign)

/-- An assignment that is accepted leaves digits in all half bytes of a packed field but the last.
That one is a sign, unless the bytes themselves were assigned and end in none. -/
theorem packed_form [Libraries] {l l' : Leaf} {s : Scalar} {content : PackedContent}
    (typed : l.Typed)
    (kind : l.place.type.kind = .packed content) (given : 0 < l.place.type.length)
    (own : l.place.platform.OwnSigns) (assigned : l.assign s = .ok l') :
    l'.bytes.length = l.place.type.length ∧ (∀ d ∈ digits l'.bytes, d ≤ 9) ∧
      (EndsInSign l'.bytes ↔ ∀ raw, s = .bytes raw → EndsInSign raw) := by
  obtain ⟨before, same⟩ := typed.packed kind
  generalize l.place = p at same given own
  subst same
  obtain ⟨_, changed, rfl⟩ := Outcome.map_ok.mp assigned
  obtain ⟨bytes, accepted, rfl⟩ := Outcome.map_ok.mp changed
  refine ⟨PackedField.length_assign accepted given.ne', ?_⟩
  show (∀ d ∈ digits bytes, d ≤ 9) ∧ (EndsInSign bytes ↔ _)
  cases s with
  | bytes raw =>
    obtain ⟨digit, sign⟩ := PackedField.form_layout given accepted
    refine ⟨digit, sign.trans ⟨fun ends other same => ?_, fun ends => ends raw rfl⟩⟩
    cases same
    exact ends
  | text t | int v | uint v | float v =>
    obtain ⟨v, -, encoded⟩ := Outcome.bind_ok.mp accepted
    obtain ⟨digit, sign⟩ := PackedField.form_encode own.conventional encoded
    exact ⟨digit, iff_of_true sign nofun⟩

namespace Sample

def balance : Leaf :=
  fresh (.top { FieldType.ofKind (.packed .number) "PA" with length := 2 } .openSystem)

end Sample

theorem negative_packed_form : ∃ l', Sample.balance.assign (.int (-7)) = .ok l' ∧
    l'.bytes = [0x00, 0x7B] ∧ (∀ d ∈ digits l'.bytes, d ≤ 9) ∧ EndsInSign l'.bytes := by
  have written : Packed.encode .openSystem 2 (-7) = .ok [0x00, 0x7B] :=
    Packed.encode_ok.mpr ⟨Packed.lengthFor_le_iff.mpr ⟨by decide, by decide⟩, rfl⟩
  have encoded : PackedField.encode Sample.balance.place (-7) = .ok [0x00, 0x7B] :=
    PackedField.encode_iff.mpr ⟨by decide, by decide, rfl, written⟩
  have integer : (Scalar.int (-7)).integer? = some (-7) := rfl
  have assigned : Sample.balance.assign (.int (-7)) =
      .ok ⟨Sample.balance.place, .packed .number [0x00, 0x7B]⟩ :=
    (assign_packed (Place.scales_of_integer (Nat.zero_le 18) integer) integer).mpr
      ⟨_, encoded, rfl⟩
  have typed : Sample.balance.Typed := rfl
  obtain ⟨-, digit, sign⟩ := packed_form typed rfl (by decide) rfl assigned
  exact ⟨_, assigned, rfl, digit, sign.mpr nofun⟩

theorem digit_assigned_as_sign : ∃ l', Sample.balance.Typed ∧
    Sample.balance.place.type.kind = .packed .number ∧ 0 < Sample.balance.place.type.length ∧
    Sample.balance.place.platform.OwnSigns ∧
    Sample.balance.assign (.bytes [0x12, 0x34]) = .ok l' ∧ l'.bytes = [0x12, 0x34] ∧
    ¬EndsInSign l'.bytes := by
  refine ⟨_, rfl, rfl, by decide, rfl, rfl, rfl, fun ends => ?_⟩
  exact absurd ((Packed.endsInSign_concat [0x12] 0x34).mp ends) (by decide)

end Leaf

end RecordCodec
