import RecordCodec.Libraries.Standard
import RecordCodec.Proofs.Value.Exchange
import RecordCodec.Proofs.Value.Layout
import RecordCodec.Proofs.Value.Pieces

/-!
Variable fields that a record delivers in one piece. The length header bounds what a read can
deliver, and a store writes all of that back. An assignment has bounds of its own: they are those of
the header for the longer one, and one byte less for a header of one byte.
-/
namespace RecordCodec

/-- A field whose bytes a read takes at once and as they are. -/
inductive FieldType.OnePiece (t : FieldType) : Prop where
  | octets (kind : t.kind = .octets)
  | text {size : TextSize} {unicode : Bool} (kind : t.kind = .text size unicode)
      (small : size ≠ .large) (whole : t.partialRange = none)

namespace Leaf

/-- A variable field with a payload that its length header can count. -/
inductive Delivered : Leaf → Prop where
  | octets {p : Place} {bytes : List UInt8} (kind : p.type.kind = .octets)
      (varies : p.type.length = 0) (counted : bytes.length + 1 < Bytes.capacity 1) :
      Delivered ⟨p, .octets bytes⟩
  | text {p : Place} {size : TextSize} {unicode : Bool} {bytes : List UInt8}
      (kind : p.type.kind = .text size unicode) (small : size ≠ .large)
      (whole : p.type.partialRange = none) (varies : p.type.length = 0)
      (counted : bytes.length + size.header < Bytes.capacity size.header) :
      Delivered ⟨p, .text size unicode (.whole bytes)⟩

end Leaf

/-! ### Reading -/

theorem Leaf.counted_readShort {p : Place} (varies : p.type.length = 0) {q q' : ByteQueue}
    {bytes : List UInt8} (h : readShort p q = .ok (bytes, q')) :
    bytes.length + 1 < Bytes.capacity 1 := by
  rw [readShort, if_pos (p.type.isVariable_iff.mpr varies)] at h
  obtain ⟨⟨n, behind⟩, header, h⟩ := Outcome.bind_ok.mp h
  have bound := ByteQueue.takeNat_lt header
  have length := ByteQueue.length_take h
  simp only [Bytes.capacity] at bound ⊢
  omega

namespace TextField

variable {p : Place} {size : TextSize}

theorem counted_readWhole (varies : p.type.length = 0) {q q' : ByteQueue} {bytes : List UInt8}
    (h : readWhole p size q = .ok (bytes, q')) :
    bytes.length + size.header < Bytes.capacity size.header := by
  obtain ⟨⟨length, behind⟩, counted, h⟩ := Outcome.bind_ok.mp h
  rw [readLength, if_pos (p.type.isVariable_iff.mpr varies)] at counted
  obtain ⟨⟨n, behind⟩, header, same⟩ := Outcome.map_ok.mp counted
  cases same
  have bound := ByteQueue.takeNat_lt header
  have length := ByteQueue.length_take h
  have room : size.header < Bytes.capacity size.header := by cases size <;> decide
  omega

end TextField

namespace Leaf

variable {l l' : Leaf}

/-- What a read of the first call puts into a variable field, a length header has counted. -/
theorem delivered_parse (typed : l.Typed) (piece : l.place.type.OnePiece)
    (varies : l.place.type.length = 0) {r : Request} (first : r.isFollowUp = false)
    {q : ByteQueue} {progress : Progress} (read : l.parse r q = (l', .ok progress)) :
    l'.Delivered ∧ l'.place = l.place := by
  obtain ⟨p, before⟩ := l
  have shape := Content.IsOf.of_kind typed
  have paired := Outcome.paired_ok.mpr read
  cases piece with
  | octets kind =>
    rw [kind] at shape
    obtain ⟨_, rfl⟩ := shape
    rw [paired_parse first (by simp)] at paired
    obtain ⟨_, content, same⟩ := Outcome.map_ok.mp paired
    obtain ⟨⟨bytes, q'⟩, taken, rfl⟩ := Outcome.map_ok.mp (Outcome.mapError_ok.mp content)
    cases same
    exact ⟨.octets kind varies (counted_readShort varies taken), rfl⟩
  | text kind small whole =>
    rw [kind] at shape
    obtain ⟨_, rfl⟩ := shape
    rw [paired_parse_text first whole (TextField.isLob_small small _)] at paired
    obtain ⟨⟨bytes, q'⟩, taken, same⟩ := Outcome.map_ok.mp paired
    cases same
    have counted := TextField.counted_readWhole varies (Outcome.mapError_ok.mp taken)
    exact ⟨.text kind small whole varies counted, rfl⟩

end Leaf

/-! ### Assigning -/

theorem OctetField.layout_variable {p : Place} (varies : p.type.length = 0) (bytes : List UInt8) :
    layout p bytes = if maxVariable < bytes.length then
      .error (.bytesTooLong p.shortName bytes.length 0) else .ok bytes := by
  simp only [layout, varies, if_true, Nat.zero_sub, List.replicate_zero, List.append_nil]

theorem TextField.layout_variable {p : Place} (varies : p.type.length = 0)
    (whole : p.type.partialRange = none) (size : TextSize) (unicode : Bool) (bytes : List UInt8) :
    layout p size unicode bytes = if maxVariable size < bytes.length then
      .error (.textTooLong p.shortName bytes.length (maxVariable size)) else .ok bytes := by
  simp only [layout, varies, whole, Option.isSome_none, Bool.false_eq_true, if_false, if_true,
    Nat.zero_sub, List.replicate_zero, List.append_nil]

namespace Leaf

variable {l l' : Leaf}

/-- The bytes of such a field are taken again, unless they are as many as a header of one byte can
announce. -/
theorem Delivered.assign [Libraries] (delivered : l.Delivered) :
    (¬(l.place.type.kind.lengthHeader = 1 ∧ l.bytes.length = 254) →
        l.assign (.bytes l.bytes) = .ok l) ∧
      (l.place.type.kind.lengthHeader = 1 ∧ l.bytes.length = 254 →
        ∃ fault, l.assign (.bytes l.bytes) = .error fault ∧
          fault.code = if l.place.type.kind = .octets then 59 else 77) := by
  cases delivered with
  | @octets p bytes kind varies counted =>
    have laid : (⟨p, .octets bytes⟩ : Leaf).assign (.bytes bytes) =
      ((OctetField.layout p bytes).map .octets).map fun content => ⟨p, content⟩ := rfl
    have limit : OctetField.maxVariable < bytes.length ↔ bytes.length = 254 := by
      simp only [Bytes.capacity, OctetField.maxVariable] at counted ⊢
      omega
    simp only [Leaf.bytes, kind, FieldKind.lengthHeader, true_and, ← limit]
    rw [laid, OctetField.layout_variable varies]
    constructor
    · intro short
      rw [if_neg short]
      rfl
    · intro long
      rw [if_pos long]
      exact ⟨_, rfl, rfl⟩
  | @text p size unicode bytes kind small whole varies counted =>
    have laid : (⟨p, .text size unicode (.whole bytes)⟩ : Leaf).assign (.bytes bytes) =
      ((TextField.layout p size unicode bytes >>= fun b => pure (.whole b)).map
        (.text size unicode)).map fun content => ⟨p, content⟩ := rfl
    have limit : TextField.maxVariable size < bytes.length ↔
        size.header = 1 ∧ bytes.length = 254 := by
      cases size with
      | large => exact absurd rfl small
      | short =>
        simp only [TextSize.header, Bytes.capacity, TextField.maxVariable, true_and] at counted ⊢
        omega
      | long =>
        simp only [TextSize.header, Bytes.capacity, TextField.maxVariable] at counted ⊢
        omega
    simp only [Leaf.bytes, TextContent.bytes_whole, kind, FieldKind.lengthHeader, ← limit]
    rw [laid, TextField.layout_variable varies whole]
    constructor
    · intro short
      rw [if_neg short]
      rfl
    · intro long
      rw [if_pos long]
      exact ⟨_, rfl, rfl⟩

/-! ### Storing -/

theorem Delivered.suited (delivered : l.Delivered) : l.Suited := by
  cases delivered with
  | octets kind varies counted =>
    exact .octets kind (by rw [varies]; exact occupies_variable.mpr counted)
  | text kind small whole varies counted =>
    exact .text kind fun _ => by rw [varies]; exact occupies_variable.mpr counted

/-- A store writes such a field so that a read finds the same bytes, or a blank for an empty
text. -/
theorem Delivered.exchange (delivered : l.Delivered) (order : ByteOrder) :
    ∃ record, (∀ r : Request, r.isFollowUp = false → l.store order r = .ok (.whole record)) ∧
      ∀ target : Leaf, target.Typed → target.place = l.place →
        ∀ (r : Request) (taken rest : List UInt8), r.isFollowUp = false → ∃ again : Leaf,
          target.parse r ⟨order, taken, record ++ rest⟩ =
            (again, .ok (.done ⟨order, record.reverse ++ taken, rest⟩)) ∧
          again.bytes = if (Value.leaf l).isEmptyText then [0x20] else l.bytes := by
  have whole : ∀ size unicode, l.place.type.kind = .text size unicode →
      l.place.type.partialRange = none := by
    cases delivered with
    | octets kind =>
      intro size unicode other
      rw [kind] at other
      cases other
    | text _ _ whole => exact fun _ _ _ => whole
  have kind : l.place.type.kind.Exchanged l.place.type.length := by
    cases delivered with
    | octets kind =>
      rw [kind]
      trivial
    | @text _ size _ _ kind small =>
      rw [kind]
      cases size with
      | short | long => trivial
      | large => exact absurd rfl small
  obtain ⟨record, stored, read⟩ := Leaf.exchange delivered.suited whole kind order
  refine ⟨record, stored, fun target typed place r taken rest first => ⟨l.written, ?_, ?_⟩⟩
  · rw [← read target.content (place ▸ typed) r taken rest first, ← place]
  · cases delivered <;> rfl

theorem Delivered.counted (delivered : l.Delivered) :
    l.bytes.length + l.place.type.kind.lengthHeader <
      Bytes.capacity l.place.type.kind.lengthHeader := by
  cases delivered with
  | octets kind varies counted | text kind small whole varies counted =>
    rw [kind]
    exact counted

/-- What a record delivers to a variable field, an assignment takes again and a store writes back,
with a blank for an empty text. The exception is the longest payload that a header of one byte can
announce: it is stored, but an assignment refuses it. -/
theorem delivered_again [Libraries] {r : Request} {q : ByteQueue} {progress : Progress}
    (typed : l.Typed)
    (piece : l.place.type.OnePiece) (varies : l.place.type.length = 0)
    (first : r.isFollowUp = false) (read : l.parse r q = (l', .ok progress)) :
    l'.bytes.length + l.place.type.kind.lengthHeader <
        Bytes.capacity l.place.type.kind.lengthHeader ∧
      (¬(l.place.type.kind.lengthHeader = 1 ∧ l'.bytes.length = 254) →
        l'.assign (.bytes l'.bytes) = .ok l') ∧
      (l.place.type.kind.lengthHeader = 1 ∧ l'.bytes.length = 254 →
        ∃ fault, l'.assign (.bytes l'.bytes) = .error fault ∧
          fault.code = if l.place.type.kind = .octets then 59 else 77) ∧
      ∀ order : ByteOrder, ∃ record,
        (∀ r : Request, r.isFollowUp = false → l'.store order r = .ok (.whole record)) ∧
        ∀ target : Leaf, target.Typed → target.place = l.place →
          ∀ (r : Request) (taken rest : List UInt8), r.isFollowUp = false → ∃ again : Leaf,
            target.parse r ⟨order, taken, record ++ rest⟩ =
              (again, .ok (.done ⟨order, record.reverse ++ taken, rest⟩)) ∧
            again.bytes = if (Value.leaf l').isEmptyText then [0x20] else l'.bytes := by
  obtain ⟨delivered, place⟩ := delivered_parse typed piece varies first read
  rw [← place]
  exact ⟨delivered.counted, delivered.assign.1, delivered.assign.2, delivered.exchange⟩

namespace Sample

def note : Leaf :=
  fresh (.top { FieldType.ofKind (.text .long false) "LA" with length := 0 } .openSystem)

def remark : Leaf :=
  fresh (.top { FieldType.ofKind (.text .short false) "AA" with length := 0 } .openSystem)

end Sample

theorem note_delivered_again : ∃ l' progress record again,
    Sample.note.Typed ∧ Sample.note.place.type.OnePiece ∧ Sample.note.place.type.length = 0 ∧
    Sample.note.parse (.ofCall false 0) (.ofList .big [0x00, 0x04, 0x48, 0x49]) =
      (l', .ok progress) ∧
    l'.bytes = [0x48, 0x49] ∧ l'.assign (.bytes l'.bytes) = .ok l' ∧
    l'.store .little (.ofCall true 0) = .ok (.whole record) ∧
    Sample.note.parse (.ofCall false 0) ⟨.little, [], record ++ [0x7C]⟩ =
      (again, .ok (.done ⟨.little, record.reverse ++ [], [0x7C]⟩)) ∧
    again.bytes = [0x48, 0x49] := by
  obtain ⟨l', progress, read, bytes, filled⟩ : ∃ l' progress,
      Sample.note.parse (.ofCall false 0) (.ofList .big [0x00, 0x04, 0x48, 0x49]) =
        (l', .ok progress) ∧
      l'.bytes = [0x48, 0x49] ∧ (Value.leaf l').isEmptyText = false := ⟨_, _, rfl, rfl, rfl⟩
  have typed : Sample.note.Typed := rfl
  have piece : Sample.note.place.type.OnePiece := .text rfl (by decide) rfl
  obtain ⟨-, accepted, -, exchanged⟩ := delivered_again typed piece rfl rfl read
  obtain ⟨record, stored, back⟩ := exchanged .little
  obtain ⟨again, delivered, same⟩ := back Sample.note typed rfl (.ofCall false 0) [] [0x7C] rfl
  rw [filled, if_neg Bool.false_ne_true, bytes] at same
  have assigned := accepted fun limit => nomatch limit.1
  exact ⟨l', progress, record, again, typed, piece, rfl, read, bytes, assigned, stored _ rfl,
    delivered, same⟩

theorem parse_remark {bytes : List UInt8} (length : bytes.length = 254) :
    Sample.remark.parse (.ofCall false 0) (.ofList .big (0xFF :: bytes)) =
      (⟨Sample.remark.place, .text .short false (.whole bytes)⟩,
        .ok (.done ⟨.big, bytes.reverse ++ [0xFF], []⟩)) := by
  have taken : TextField.readWhole Sample.remark.place .short (.ofList .big (0xFF :: bytes)) =
      .ok (bytes, ⟨.big, bytes.reverse ++ [0xFF], []⟩) := by
    have payload := (Consumes.take .big bytes).whole [0xFF] []
    rw [List.append_nil, length] at payload
    exact payload
  refine Outcome.paired_ok.mp ?_
  show Outcome.paired (parse _ _ ⟨Sample.remark.place, .text .short false ⟨[], 0⟩⟩) = _
  rw [paired_parse_text rfl rfl rfl, taken]
  rfl

/-- The longest payload behind a header of one byte is delivered, but not assigned again. -/
theorem longest_remark_refused : ∃ l' progress fault,
    Sample.remark.Typed ∧ Sample.remark.place.type.OnePiece ∧
    Sample.remark.place.type.length = 0 ∧
    Sample.remark.parse (.ofCall false 0) (.ofList .big (0xFF :: List.replicate 254 0x41)) =
      (l', .ok progress) ∧ l'.bytes = List.replicate 254 0x41 ∧
    l'.assign (.bytes l'.bytes) = .error fault ∧ fault.code = 77 := by
  have read := parse_remark (List.length_replicate (n := 254) (a := (0x41 : UInt8)))
  have typed : Sample.remark.Typed := rfl
  have piece : Sample.remark.place.type.OnePiece := .text rfl (by decide) rfl
  obtain ⟨fault, refused, code⟩ :=
    (delivered_parse typed piece rfl rfl read).1.assign.2 ⟨rfl, List.length_replicate⟩
  exact ⟨_, _, fault, typed, piece, rfl, read, rfl, refused, code⟩

end Leaf

end RecordCodec
