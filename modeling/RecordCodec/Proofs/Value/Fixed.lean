import RecordCodec.Libraries.Standard
import RecordCodec.Proofs.Value.Changes
import RecordCodec.Proofs.Value.Everywhere
import RecordCodec.Proofs.Value.Extent
import RecordCodec.Proofs.Value.Pieces

/-!
Fields of a declared length. They hold exactly as many bytes as they declare, from the start and
after every assignment and every read, successful or not.
-/
namespace RecordCodec

/-- Bytes as many as the field declares, unless it is variable. A text restricted to a byte range
takes any bytes. -/
def Content.Fills (p : Place) : Content → Prop
  | .octets bytes | .packed _ bytes | .unpacked bytes =>
    p.type.length ≠ 0 → bytes.length = p.type.length
  | .text _ _ c =>
    p.type.length ≠ 0 → p.type.partialRange = none → c.bytes.length = p.type.length
  | .integer .. | .float .. | .superDescriptor _ | .pseudo => True

theorem Content.Suits.fills {p : Place} {content : Content} (suits : content.Suits p) :
    content.Fills p := by
  cases suits with
  | octets kind extent => exact fun fixed => (occupies_fixed fixed).mp extent
  | packed kind extent | unpacked kind extent => exact extent
  | text kind extent => exact fun fixed whole => (occupies_fixed fixed).mp (extent whole)
  | integer | float | superDescriptor | pseudo => exact trivial

theorem TextField.length_parse {p : Place} {size : TextSize} (fixed : p.type.length ≠ 0)
    (whole : p.type.partialRange = none) {c : TextContent} (full : c.bytes.length = p.type.length)
    (r : Request) (q : ByteQueue) : (parse p size r c q).1.bytes.length = p.type.length := by
  have varies := FieldType.isVariable_fixed fixed
  rw [parse, whole, isIncomplete, isLob_fixed fixed]
  cases r.isFollowUp with
  | true => exact full
  | false =>
    cases read : readWhole p size q with
    | error shortage => simpa [read] using full
    | ok taken =>
      obtain ⟨bytes, q'⟩ := taken
      simp only [readWhole, readLength, varies] at read
      simpa [read] using ByteQueue.length_take read

namespace Leaf

def Full (l : Leaf) : Prop :=
  l.content.Fills l.place

theorem length_readShort {p : Place} {q q' : ByteQueue} {bytes : List UInt8}
    (h : readShort p q = .ok (bytes, q')) (fixed : p.type.length ≠ 0) :
    bytes.length = p.type.length := by
  rw [readShort, FieldType.isVariable_fixed fixed] at h
  exact ByteQueue.length_take h

theorem full_fresh (p : Place) : (fresh p).Full :=
  (Content.suits_initial p).fills

theorem full_assign [Libraries] {l l' : Leaf} {s : Scalar} (h : l.assign s = .ok l') : l'.Full := by
  obtain ⟨content, changed, rfl⟩ := Outcome.map_ok.mp h
  obtain ⟨p, before⟩ := l
  cases before with
  | superDescriptor | pseudo => cases changed
  | integer | float =>
    obtain ⟨_, -, rfl⟩ := Outcome.map_ok.mp changed
    exact trivial
  | octets =>
    obtain ⟨bytes, assigned, rfl⟩ := Outcome.map_ok.mp changed
    exact fun fixed => (occupies_fixed fixed).mp (OctetField.occupies_assign assigned)
  | packed =>
    obtain ⟨bytes, assigned, rfl⟩ := Outcome.map_ok.mp changed
    exact PackedField.length_assign assigned
  | unpacked =>
    obtain ⟨bytes, assigned, rfl⟩ := Outcome.map_ok.mp changed
    exact UnpackedField.length_assign assigned
  | text =>
    obtain ⟨c, assigned, rfl⟩ := Outcome.map_ok.mp changed
    exact fun fixed whole => (occupies_fixed fixed).mp (TextField.occupies_assign assigned whole)

theorem fills_readContent {l : Leaf} {q q' : ByteQueue} {content : Content} (full : l.Full)
    (h : l.readContent q = .ok (content, q')) : content.Fills l.place := by
  obtain ⟨p, before⟩ := l
  cases before with
  | text | pseudo =>
    cases h
    exact full
  | integer | float | superDescriptor =>
    obtain ⟨_, -, same⟩ := Outcome.map_ok.mp h
    cases same
    exact trivial
  | octets | packed | unpacked =>
    obtain ⟨_, read, same⟩ := Outcome.map_ok.mp h
    cases same
    exact length_readShort read

theorem full_parse {l : Leaf} (full : l.Full) (r : Request) (q : ByteQueue) :
    (l.parse r q).1.Full := by
  obtain ⟨p, before⟩ := l
  unfold parse
  split
  · rename_i size unicode c same
    cases same
    exact fun fixed whole => TextField.length_parse fixed whole (full fixed whole) r q
  · exact full
  · split
    · exact full
    · split
      · exact full
      · rename_i content q' read
        have filled := fills_readContent full read
        exact filled

theorem lasting_full [Libraries] : Lasting Full where
  fresh := full_fresh
  assign _ assigned := full_assign assigned
  parse r q full := full_parse full r q
  compose _ _ _ := trivial

end Leaf

/-- A field with values of one length, which it declares: raw bytes, decimals and whole texts of any
length but zero, and numbers of the length of their kind. -/
def FieldType.DeclaresLength (t : FieldType) : Prop :=
  match t.kind with
  | .octets | .packed _ | .unpacked => 0 < t.length
  | .text _ _ => 0 < t.length ∧ t.partialRange = none
  | .binary width _ => t.length = width.bytes
  | .float wide => t.length = FloatField.width wide
  | _ => False

namespace FieldType.DeclaresLength

variable {t : FieldType} (declares : t.DeclaresLength)
include declares

theorem flat : t.kind.isStructure = false := by
  unfold DeclaresLength at declares
  cases kind : t.kind <;> first | rfl | (rw [kind] at declares; cases declares)

theorem data : t.kind.isPseudo = false := by
  unfold DeclaresLength at declares
  cases kind : t.kind <;> first | rfl | (rw [kind] at declares; cases declares)

theorem underived : t.kind ≠ .superDescriptor := by
  intro kind
  rw [DeclaresLength, kind] at declares
  exact declares

theorem binary {width : BinaryWidth} {signed : Bool} (kind : t.kind = .binary width signed) :
    t.length = width.bytes := by
  rwa [DeclaresLength, kind] at declares

theorem float {wide : Bool} (kind : t.kind = .float wide) :
    t.length = FloatField.width wide := by
  rwa [DeclaresLength, kind] at declares

theorem whole {size : TextSize} {unicode : Bool} (kind : t.kind = .text size unicode) :
    t.partialRange = none := by
  rw [DeclaresLength, kind] at declares
  exact declares.2

theorem fixed : t.length ≠ 0 := by
  cases kind : t.kind with
  | binary width signed =>
    rw [declares.binary kind]
    cases width <;> decide
  | float wide =>
    rw [declares.float kind]
    cases wide <;> decide
  | octets | packed | unpacked =>
    rw [DeclaresLength, kind] at declares
    exact Nat.ne_of_gt declares
  | text =>
    rw [DeclaresLength, kind] at declares
    exact Nat.ne_of_gt declares.1
  | superDescriptor => exact absurd kind declares.underived
  | pseudo => exact absurd declares.data (by simp [kind, FieldKind.isPseudo])
  | group | periodicGroup | multiple =>
    exact absurd declares.flat (by simp [kind, FieldKind.isStructure])

end FieldType.DeclaresLength

theorem TextField.parse_error {p : Place} {size : TextSize} (fixed : p.type.length ≠ 0)
    (whole : p.type.partialRange = none) {c : TextContent} {r : Request} {q : ByteQueue}
    {fault : FieldFault} (h : (parse p size r c q).2 = .error fault) :
    (parse p size r c q).1 = c := by
  rw [parse, whole, isIncomplete, isLob_fixed fixed] at h ⊢
  cases later : r.isFollowUp with
  | true => rfl
  | false =>
    cases read : readWhole p size q with
    | error shortage => rfl
    | ok taken => simp [later, read] at h

namespace Leaf

variable {l : Leaf}

theorem length_bytes (typed : l.Typed) (full : l.Full)
    (declares : l.place.type.DeclaresLength) : l.bytes.length = l.place.type.length := by
  obtain ⟨p, content⟩ := l
  cases content with
  | superDescriptor bytes => exact absurd typed declares.underived
  | pseudo => exact absurd typed (by simp [Typed, Content.IsOf, declares.data])
  | integer width signed v =>
    exact (ByteOrder.length_encode ..).trans (declares.binary typed).symm
  | float wide bits => exact (ByteOrder.length_encode ..).trans (declares.float typed).symm
  | octets | packed | unpacked => exact full declares.fixed
  | text => exact full declares.fixed (declares.whole typed)

theorem parse_error (typed : l.Typed) (declares : l.place.type.DeclaresLength) {r : Request}
    {q : ByteQueue} {fault : FieldFault} (h : (l.parse r q).2 = .error fault) :
    (l.parse r q).1 = l := by
  obtain ⟨p, content⟩ := l
  cases content with
  | text size unicode c =>
    have same := TextField.parse_error declares.fixed (declares.whole typed) h
    simp only [parse, same]
  | pseudo => rfl
  | integer | octets | float | packed | unpacked | superDescriptor =>
    simp only [parse] at h ⊢
    split
    · rfl
    · rename_i first
      rw [if_neg first] at h
      split at h
      · rfl
      · cases h

end Leaf

namespace Value

theorem modifyAt_leaf {α : Type} (change : Value → α × Value) (path : List PathStep) (l : Leaf) :
    modifyAt change path (leaf l) = (none, leaf l) ∨
      modifyAt change path (leaf l) = (some (change (leaf l)).1, (change (leaf l)).2) := by
  induction path with
  | nil => exact .inr rfl
  | cons step path ih =>
    cases step with
    | member occurrence position => exact .inl rfl
    | named name =>
      by_cases named : (leaf l).isNamed name = true
      · simpa only [modifyAt, modifyNamed?, if_pos named] using ih
      · exact .inl (by simp only [modifyAt, modifyNamed?, if_neg named])

section

variable [Libraries]

/-- A value of `n` bytes, which an operation that does not succeed leaves as it is. -/
structure Steady (n : Nat) (v : Value) : Prop where
  length : v.bytes.length = n
  unchanged : ∀ operation : Operation, (∀ t, (operation.apply v).1 ≠ some (t, .ok ())) →
    (operation.apply v).2 = v

theorem apply_of_failed {l : Leaf} (typed : l.Typed) (declares : l.place.type.DeclaresLength)
    {change : Change} (failed : change.outcome (leaf l) ≠ .ok ()) :
    change.apply (leaf l) = leaf l := by
  cases change with
  | assign s =>
    cases assigned : (leaf l).assign s with
    | error fault => simp [Change.apply, assigned, Except.toOption]
    | ok v => exact absurd (by simp [Change.outcome, assigned, Except.map]) failed
  | push s => rfl
  | reach index => rfl
  | parse r q =>
    cases parsed : (l.parse r q).2 with
    | error fault => exact congrArg leaf (Leaf.parse_error typed declares parsed)
    | ok progress => exact absurd (by simp [Change.outcome, parse, parsed, Except.map]) failed

theorem steady_of_full {l : Leaf} (typed : l.Typed) (full : l.Full)
    (declares : l.place.type.DeclaresLength) : (leaf l).Steady l.place.type.length := by
  refine ⟨Leaf.length_bytes typed full declares, fun operation failed => ?_⟩
  unfold Operation.apply at failed ⊢
  obtain missed | made := modifyAt_leaf
    (fun v => ((v.type, operation.change.outcome v), operation.change.apply v)) operation.path l
  · rw [missed]
  · rw [made] at failed ⊢
    refine apply_of_failed typed declares fun succeeded => failed l.place.type ?_
    rw [succeeded]
    rfl

/-- A field that declares a length has it, whatever is assigned and read, and keeps its value when
an assignment or a read fails. -/
theorem declared_length_kept {t : FieldType} (declares : t.DeclaresLength) (platform : Platform)
    (i j : Nat) (operations : List Operation) :
    ((t.freshAt platform i j).after operations).Steady t.length := by
  obtain ⟨formed, here⟩ := obeys_reached lasting_declared grows_declared t platform i j operations
  obtain ⟨full, -⟩ := obeys_reached Leaf.lasting_full.fieldLaw grows_fieldLaw t platform i j
    operations
  cases reached : (t.freshAt platform i j).after operations with
  | node p elements =>
    rw [reached] at formed here
    cases here
    cases formed with
    | node shape _ => cases shape.1.symm.trans declares.flat
  | leaf l =>
    rw [reached] at formed full here
    cases formed with
    | leaf typed =>
    cases full with
    | leaf full =>
    have same : l.place.type = t := congrArg Place.type here
    rw [← same] at declares ⊢
    exact steady_of_full typed full declares

end

namespace Sample

def amount : FieldType :=
  { FieldType.ofKind (.packed .number) "PA" with length := 3 }

/-- A number that fits, a text that is no number, a number that does not fit and a record that is
too short. -/
def attempts : List Operation :=
  [⟨[], .assign (.int 12345)⟩, ⟨[], .assign (.text ['1', 'x'])⟩, ⟨[], .assign (.int 1234567)⟩,
    ⟨[], .parse (.ofCall false 0) (.ofList .big [0x99, 0x99])⟩]

end Sample

theorem amount_length_kept : Sample.amount.DeclaresLength ∧
    ((Sample.amount.freshAt .openSystem 0 0).after Sample.attempts).bytes = [0x12, 0x34, 0x5c] ∧
    ((Sample.amount.freshAt .openSystem 0 0).after Sample.attempts).Steady 3 := by
  have declares : Sample.amount.DeclaresLength := by
    show 0 < 3
    decide
  exact ⟨declares, by decide +kernel, declared_length_kept declares .openSystem 0 0 Sample.attempts⟩

end Value

end RecordCodec
