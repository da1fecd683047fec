import RecordCodec.Proofs.Decimal.Packed
import RecordCodec.Proofs.Decimal.Zoned
import RecordCodec.Proofs.Outcome
import RecordCodec.Proofs.Value.Assignment

/-!
How much a value holds. An assignment keeps it within what its field declares: a number within its
width, and bytes as many as the field has or, in a variable field, as few as a length header counts.
-/
namespace RecordCodec

/-- Whether a field of a declared length can hold `n` bytes. The length header of a variable field
counts itself. -/
def Occupies (header length n : Nat) : Prop :=
  if length = 0 then n + header < Bytes.capacity header else n = length

theorem FieldType.isVariable_fixed {t : FieldType} (fixed : t.length ≠ 0) :
    t.isVariable = false := by
  simpa [isVariable] using fixed

theorem TextField.isLob_of_kind {p : Place} {size : TextSize} {unicode : Bool}
    (kind : p.type.kind = .text size unicode) : isLob p size = p.type.isLob := by
  rw [FieldType.isLob, kind, isLob]
  cases size <;> rfl

theorem TextField.isLob_small {size : TextSize} (small : size ≠ .large) (p : Place) :
    isLob p size = false := by
  cases size with
  | short | long => rfl
  | large => exact absurd rfl small

theorem TextField.isLob_fixed {p : Place} (fixed : p.type.length ≠ 0) (size : TextSize) :
    isLob p size = false := by
  simp [isLob, fixed]

theorem occupies_fixed {header length n : Nat} (fixed : length ≠ 0) :
    Occupies header length n ↔ n = length := by
  rw [Occupies, if_neg fixed]

theorem occupies_variable {header n : Nat} :
    Occupies header 0 n ↔ n + header < Bytes.capacity header := by
  rw [Occupies, if_pos rfl]

theorem occupies_padded {header length n limit : Nat}
    (bound : n ≤ if length = 0 then limit else length)
    (counted : limit + header < Bytes.capacity header) :
    Occupies header length (n + (length - n)) := by
  by_cases fixed : length = 0
  · subst fixed
    rw [if_pos rfl] at bound
    apply occupies_variable.mpr
    omega
  · rw [if_neg fixed] at bound
    apply (occupies_fixed fixed).mpr
    omega

inductive Content.Suits (p : Place) : Content → Prop where
  | integer {width : BinaryWidth} {signed : Bool} {v : Int}
      (kind : p.type.kind = .binary width signed)
      (low : IntegerField.low width signed ≤ v) (high : v ≤ IntegerField.high width signed) :
      Suits p (.integer width signed v)
  | octets {bytes : List UInt8} (kind : p.type.kind = .octets)
      (extent : Occupies 1 p.type.length bytes.length) : Suits p (.octets bytes)
  | float {wide : Bool} {bits : UInt64} (kind : p.type.kind = .float wide) :
      Suits p (.float wide bits)
  | packed {content : PackedContent} {bytes : List UInt8} (kind : p.type.kind = .packed content)
      (extent : p.type.length ≠ 0 → bytes.length = p.type.length) : Suits p (.packed content bytes)
  | unpacked {bytes : List UInt8} (kind : p.type.kind = .unpacked)
      (extent : p.type.length ≠ 0 → bytes.length = p.type.length) : Suits p (.unpacked bytes)
  | text {size : TextSize} {unicode : Bool} {c : TextContent}
      (kind : p.type.kind = .text size unicode)
      (extent : p.type.partialRange = none → Occupies size.header p.type.length c.bytes.length) :
      Suits p (.text size unicode c)
  | superDescriptor {bytes : List UInt8} (kind : p.type.kind = .superDescriptor) :
      Suits p (.superDescriptor bytes)
  | pseudo (kind : p.type.kind.isPseudo = true ∨ p.type.kind.isStructure = true) : Suits p .pseudo

theorem Content.Suits.of_kind {p : Place} {content : Content} (suits : content.Suits p) :
    match p.type.kind with
    | .binary width signed => ∃ v, content = .integer width signed v ∧
      IntegerField.low width signed ≤ v ∧ v ≤ IntegerField.high width signed
    | .octets => ∃ bytes, content = .octets bytes ∧ Occupies 1 p.type.length bytes.length
    | .float wide => ∃ bits, content = .float wide bits
    | .packed meaning => ∃ bytes, content = .packed meaning bytes ∧
      (p.type.length ≠ 0 → bytes.length = p.type.length)
    | .unpacked => ∃ bytes, content = .unpacked bytes ∧
      (p.type.length ≠ 0 → bytes.length = p.type.length)
    | .text size unicode => ∃ c, content = .text size unicode c ∧
      (p.type.partialRange = none → Occupies size.header p.type.length c.bytes.length)
    | .superDescriptor => ∃ bytes, content = .superDescriptor bytes
    | .pseudo _ | .group | .periodicGroup | .multiple => content = .pseudo := by
  cases suits with
  | integer kind low high =>
    rw [kind]
    exact ⟨_, rfl, low, high⟩
  | octets kind extent | packed kind extent | unpacked kind extent | text kind extent =>
    rw [kind]
    exact ⟨_, rfl, extent⟩
  | float kind | superDescriptor kind =>
    rw [kind]
    exact ⟨_, rfl⟩
  | pseudo kind =>
    cases same : p.type.kind <;>
      first | rfl | simp [same, FieldKind.isPseudo, FieldKind.isStructure] at kind

theorem Place.within_ok {p : Place} {low high v v' : Int} (h : p.within low high v = .ok v') :
    v' = v ∧ low ≤ v ∧ v ≤ high := by
  unfold within at h
  split at h
  · rename_i bounds
    cases h
    exact ⟨rfl, bounds⟩
  · cases h

namespace IntegerField

theorem low_le_zero (width : BinaryWidth) (signed : Bool) : low width signed ≤ 0 := by
  cases width <;> cases signed <;> decide

theorem zero_le_high (width : BinaryWidth) (signed : Bool) : 0 ≤ high width signed := by
  cases width <;> cases signed <;> decide

theorem assign_within [Libraries] {p : Place} {width : BinaryWidth} {signed : Bool} {s : Scalar}
    {v : Int}
    (h : assign p width signed s = .ok v) : low width signed ≤ v ∧ v ≤ high width signed := by
  have checked : ∃ raw, check p width signed raw = .ok v := by
    cases s with
    | bytes bytes | text t | int n | uint n | float bits =>
      obtain ⟨raw, -, checked⟩ := Outcome.bind_ok.mp h
      exact ⟨raw, checked⟩
  obtain ⟨raw, checked⟩ := checked
  unfold check at checked
  split at checked
  · cases checked
  · obtain ⟨rfl, bounds⟩ := Place.within_ok checked
    exact bounds

end IntegerField

namespace OctetField

theorem occupies_layout {p : Place} {bytes out : List UInt8} (h : layout p bytes = .ok out) :
    Occupies 1 p.type.length out.length := by
  unfold layout at h
  dsimp only at h
  by_cases long : (if p.type.length = 0 then maxVariable else p.type.length) < bytes.length
  · rw [if_pos long] at h
    cases h
  · rw [if_neg long] at h
    cases h
    rw [List.length_append, List.length_replicate]
    exact occupies_padded (Nat.le_of_not_lt long) (by decide)

theorem occupies_layoutNumber {p : Place} {n : Nat} {shown : List Char} {out : List UInt8}
    (h : layoutNumber p n shown = .ok out) : Occupies 1 p.type.length out.length := by
  unfold layoutNumber at h
  by_cases fixed : p.type.length = 0
  · simp only [if_pos fixed] at h
    split at h
    · cases h
    · cases h
      rw [ByteOrder.length_encode, fixed]
      exact occupies_variable.mpr (by decide)
  · simp only [if_neg fixed] at h
    split at h
    · cases h
    · cases h
      rw [ByteOrder.length_encode]
      exact (occupies_fixed fixed).mpr rfl

theorem occupies_assignText {p : Place} {s : List Char} {out : List UInt8}
    (h : assignText p s = .ok out) : Occupies 1 p.type.length out.length := by
  unfold assignText at h
  dsimp only at h
  split at h
  · split at h
    · exact occupies_layout h
    · cases h
  · split at h
    · exact occupies_layoutNumber h
    · exact occupies_layout h

theorem occupies_assign {p : Place} {s : Scalar} {out : List UInt8} (h : assign p s = .ok out) :
    Occupies 1 p.type.length out.length := by
  cases s with
  | bytes bytes => exact occupies_layout h
  | text t => exact occupies_assignText h
  | uint n => exact occupies_layoutNumber h
  | int v =>
    unfold assign at h
    dsimp only at h
    split at h
    · exact occupies_layoutNumber h
    · cases h
  | float bits => cases h

end OctetField

@[simp] theorem Decimal.Packed.length_zero (signs : PackedSigns) (length : Nat) :
    (zero signs length).length = length := by
  cases length <;> simp [zero]

namespace PackedField

theorem length_encode {p : Place} {v : Int} {bytes : List UInt8} (h : encode p v = .ok bytes)
    (fixed : p.type.length ≠ 0) : bytes.length = p.type.length := by
  unfold encode at h
  dsimp only at h
  rw [if_neg fixed] at h
  split at h
  · cases h
  · have encoded := Outcome.mapError_ok.mp h
    exact Decimal.Packed.length_encode (Outcome.unless_ok.mp encoded).2

theorem length_layout {p : Place} {bytes out : List UInt8} (h : layout p bytes = .ok out)
    (fixed : p.type.length ≠ 0) : out.length = p.type.length := by
  unfold layout at h
  dsimp only at h
  split at h
  · cases h
  · rename_i short
    split at h
    · cases h
    · cases h
      rw [List.length_append, List.length_replicate]
      omega

theorem length_assign [Libraries] {p : Place} {content : PackedContent} {s : Scalar}
    {bytes : List UInt8}
    (h : assign p content s = .ok bytes) (fixed : p.type.length ≠ 0) :
    bytes.length = p.type.length := by
  cases s with
  | bytes given => exact length_layout h fixed
  | text t | int v | uint v | float v =>
    obtain ⟨v, -, encoded⟩ := Outcome.bind_ok.mp h
    exact length_encode encoded fixed

end PackedField

namespace UnpackedField

theorem length_encode {p : Place} {v : Int} {bytes : List UInt8} (h : encode p v = .ok bytes)
    (fixed : p.type.length ≠ 0) : bytes.length = p.type.length := by
  unfold encode at h
  dsimp only at h
  rw [if_neg fixed] at h
  split at h
  · cases h
  · exact Decimal.Zoned.length_encode (Outcome.mapError_ok.mp h)

theorem length_layout {p : Place} {bytes out : List UInt8} (h : layout p bytes = .ok out)
    (fixed : p.type.length ≠ 0) : out.length = p.type.length := by
  unfold layout at h
  dsimp only at h
  split at h
  · cases h
  · rename_i short
    split at h
    · cases h
    · cases h
      rw [List.length_append, List.length_replicate]
      omega

theorem length_assign [Libraries] {p : Place} {s : Scalar} {bytes : List UInt8}
    (h : assign p s = .ok bytes) (fixed : p.type.length ≠ 0) :
    bytes.length = p.type.length := by
  cases s with
  | bytes given => exact length_layout h fixed
  | text t | int v | uint v | float v =>
    obtain ⟨v, -, encoded⟩ := Outcome.bind_ok.mp h
    exact length_encode encoded fixed

end UnpackedField

namespace TextField

theorem occupies_layout {p : Place} {size : TextSize} {unicode : Bool} {bytes out : List UInt8}
    (h : layout p size unicode bytes = .ok out) (whole : p.type.partialRange = none) :
    Occupies size.header p.type.length out.length := by
  unfold layout at h
  rw [whole, if_neg (by simp)] at h
  dsimp only at h
  by_cases long : (if p.type.length = 0 then maxVariable size else p.type.length) < bytes.length
  · rw [if_pos long] at h
    cases h
  · rw [if_neg long] at h
    cases h
    rw [List.length_append, List.length_replicate]
    exact occupies_padded (Nat.le_of_not_lt long) (by cases size <;> decide)

theorem occupies_assign [Libraries] {p : Place} {size : TextSize} {unicode : Bool} {s : Scalar}
    {c : TextContent} (h : assign p size unicode s = .ok c) (whole : p.type.partialRange = none) :
    Occupies size.header p.type.length c.bytes.length := by
  cases s with
  | bytes given | text t | int n | uint n | float bits =>
    obtain ⟨payload, -, h⟩ := Outcome.bind_ok.mp h
    obtain ⟨bytes, laid, h⟩ := Outcome.bind_ok.mp h
    cases h
    exact occupies_layout laid whole

end TextField

theorem Content.suits_initial (p : Place) : (Content.initial p).Suits p := by
  unfold initial
  dsimp only
  split
  · rename_i kind
    exact .integer kind (IntegerField.low_le_zero ..) (IntegerField.zero_le_high ..)
  · rename_i kind
    refine .octets kind ?_
    rw [List.length_replicate]
    by_cases fixed : p.type.length = 0
    · rw [fixed]
      exact occupies_variable.mpr (by decide)
    · exact (occupies_fixed fixed).mpr rfl
  · rename_i kind
    exact .float kind
  · rename_i kind
    exact .packed kind fun _ => Decimal.Packed.length_zero ..
  · rename_i kind
    exact .unpacked kind fun _ => List.length_replicate
  · rename_i size unicode kind
    refine .text kind fun _ => ?_
    rw [List.length_replicate]
    by_cases fixed : p.type.length = 0
    · rw [fixed]
      exact occupies_variable.mpr (by cases size <;> decide)
    · exact (occupies_fixed fixed).mpr rfl
  · rename_i kind
    exact .superDescriptor kind
  · rename_i kind
    exact .pseudo (by simp [kind, FieldKind.isPseudo])
  all_goals
    rename_i kind
    exact .pseudo (by simp [kind, FieldKind.isStructure])

namespace Leaf

/-- The content of a value is one that its field can have. -/
def Suited (l : Leaf) : Prop :=
  l.content.Suits l.place

theorem suited_fresh (p : Place) : (fresh p).Suited :=
  Content.suits_initial p

theorem Suited.pseudo_iff {l : Leaf} (suited : l.Suited) : l.content = .pseudo ↔
    l.place.type.kind.isPseudo = true ∨ l.place.type.kind.isStructure = true := by
  obtain ⟨p, content⟩ := l
  cases suited with
  | pseudo kind => exact ⟨fun _ => kind, fun _ => rfl⟩
  | integer kind | octets kind | float kind | packed kind | unpacked kind | text kind
  | superDescriptor kind =>
    simp at kind
    simp [kind, FieldKind.isPseudo, FieldKind.isStructure]

variable [Libraries]

theorem assignOperand_pseudo {l : Leaf} {s : Scalar} (pseudo : l.content = .pseudo) :
    l.assignOperand s = .error (.readOnly l.place.shortName) := by
  obtain ⟨p, content⟩ := l
  cases pseudo
  rfl

theorem suits_assignContent {l : Leaf} {s : Scalar} {content : Content} (suited : l.Suited)
    (h : l.assignContent s = .ok content) : content.Suits l.place := by
  obtain ⟨p, before⟩ := l
  unfold assignContent at h
  cases suited with
  | integer kind =>
    obtain ⟨v, assigned, rfl⟩ := Outcome.map_ok.mp h
    have bounds := IntegerField.assign_within assigned
    exact .integer kind bounds.1 bounds.2
  | octets kind =>
    obtain ⟨bytes, assigned, rfl⟩ := Outcome.map_ok.mp h
    exact .octets kind (OctetField.occupies_assign assigned)
  | float kind =>
    obtain ⟨bits, -, rfl⟩ := Outcome.map_ok.mp h
    exact .float kind
  | packed kind =>
    obtain ⟨bytes, assigned, rfl⟩ := Outcome.map_ok.mp h
    exact .packed kind (PackedField.length_assign assigned)
  | unpacked kind =>
    obtain ⟨bytes, assigned, rfl⟩ := Outcome.map_ok.mp h
    exact .unpacked kind (UnpackedField.length_assign assigned)
  | text kind =>
    obtain ⟨c, assigned, rfl⟩ := Outcome.map_ok.mp h
    exact .text kind (TextField.occupies_assign assigned)
  | superDescriptor kind => cases h
  | pseudo kind => cases h

theorem suited_assign {l l' : Leaf} {s : Scalar} (suited : l.Suited) (h : l.assign s = .ok l') :
    l'.Suited := by
  obtain ⟨content, assigned, same⟩ := Outcome.map_ok.mp h
  have suits := suits_assignContent suited assigned
  rw [← same]
  exact suits

theorem suited_assignOperand {l l' : Leaf} {s : Scalar} (suited : l.Suited)
    (h : l.assignOperand s = .ok l') : l'.Suited := by
  unfold assignOperand at h
  split at h
  · rename_i content
    cases h
    unfold Suited at suited
    rw [content] at suited
    cases suited with
    | superDescriptor kind => exact .superDescriptor kind
  · exact suited_assign suited h

end Leaf

end RecordCodec
