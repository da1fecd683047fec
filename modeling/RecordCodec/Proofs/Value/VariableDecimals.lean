import RecordCodec.Libraries.Standard
import RecordCodec.Proofs.Value.Rendered

/-!
Decimals of variable fields in a record. The length header has one byte and counts itself, modulo
256, whatever the field holds. So a decimal arrives exactly if it has fewer than 255 bytes: all
numbers and texts do, and of raw bytes, which a variable field takes at any length, the short ones.
-/
namespace RecordCodec

structure FieldType.VariableDecimal (t : FieldType) : Prop where
  kind : (∃ content, t.kind = .packed content) ∨ t.kind = .unpacked
  varies : t.length = 0

/-- A field without bytes writes a byte that has no digit but zero: in a packed field the sign,
which has to be half a byte. -/
def Place.WritesZero (p : Place) : Prop :=
  ∀ content, p.type.kind = .packed content → p.platform.packedSigns.positive.toNat < 16

namespace Decimal

theorem Packed.decode_sign {sign : UInt8} : decode [sign] = .ok 0 ↔ sign.toNat < 16 := by
  rw [decode, decodeFrom_single]
  constructor
  · rintro ⟨-, same, -⟩
    have none : highNibble sign = 0 := by
      cases isNegative sign <;> simp [signed] at same <;> omega
    unfold highNibble at none
    omega
  · intro half
    have none : highNibble sign = 0 := Nat.div_eq_of_lt half
    rw [none]
    refine ⟨by decide, ?_, by decide, by decide⟩
    cases isNegative sign <;> rfl

end Decimal

/-- What an assignment leaves in a variable decimal field: raw bytes as they are, or a number, which
a length header of one byte counts. -/
def Scalar.LeavesShort (s : Scalar) (bytes : List UInt8) : Prop :=
  s = .bytes bytes ∨ (∀ raw, s ≠ .bytes raw) ∧ bytes ≠ [] ∧ bytes.length < 255

theorem PackedField.leavesShort [Libraries] {p : Place} {content : PackedContent} {s : Scalar}
    {bytes : List UInt8} (varies : p.type.length = 0)
    (assigned : assign p content s = .ok bytes) : s.LeavesShort bytes := by
  have number {v : Int} (written : encode p v = .ok bytes) : bytes ≠ [] ∧ bytes.length < 255 := by
    have extent := occupies_encode written
    rw [varies, occupies_variable] at extent
    exact ⟨ne_nil_of_encode written, Nat.lt_of_succ_lt_succ extent⟩
  cases s with
  | bytes raw =>
    left
    obtain ⟨-, laid⟩ := Outcome.unless_ok.mp assigned
    split at laid <;> cases laid
    rw [varies, Nat.zero_sub]
    rfl
  | text | int | uint | float =>
    obtain ⟨v, -, written⟩ := Outcome.bind_ok.mp assigned
    refine .inr ⟨fun raw same => ?_, number written⟩
    cases same

theorem UnpackedField.leavesShort [Libraries] {p : Place} {s : Scalar} {bytes : List UInt8}
    (varies : p.type.length = 0) (assigned : assign p s = .ok bytes) : s.LeavesShort bytes := by
  have number {v : Int} (written : encode p v = .ok bytes) : bytes ≠ [] ∧ bytes.length < 255 := by
    obtain ⟨low, high, encoded⟩ := encode_ok.mp written
    have length := Decimal.Zoned.length_encode encoded
    rw [if_pos varies] at length
    have digits : Decimal.Zoned.lengthFor v ≤ 19 := by
      rw [Decimal.Zoned.lengthFor_le_iff]
      simp only [int64Min, int64Max] at low high
      omega
    have given := (Decimal.Zoned.lengthFor_le_iff.mp (Nat.le_refl (Decimal.Zoned.lengthFor v))).1
    exact ⟨List.ne_nil_of_length_pos (length ▸ given), by omega⟩
  cases s with
  | bytes raw =>
    left
    obtain ⟨-, laid⟩ := Outcome.unless_ok.mp assigned
    split at laid <;> cases laid
    rw [varies, Nat.zero_sub]
    rfl
  | text | int | uint | float =>
    obtain ⟨v, -, written⟩ := Outcome.bind_ok.mp assigned
    refine .inr ⟨fun raw same => ?_, number written⟩
    cases same

namespace Leaf

variable {p : Place} {order : ByteOrder}

theorem readShort_frame (varies : p.type.length = 0) (payload taken rest : List UInt8) :
    let count := (payload.length + 1) % 256 - 1
    readShort p ⟨order, taken, order.frame 1 p.type.length payload ++ rest⟩ =
      .ok (payload.take count, ⟨order,
        (payload.take count).reverse ++ (UInt8.ofNat (payload.length + 1) :: taken),
        payload.drop count ++ rest⟩) := by
  intro count
  have within : count ≤ payload.length := by omega
  have whole := (p.type.isVariable_iff).mpr varies
  have header : order.decode [UInt8.ofNat (payload.length + 1)] = (payload.length + 1) % 256 := by
    rw [← ByteOrder.encode_one order, ByteOrder.decode_encode]
    rfl
  have front := (Consumes.take order (payload.take count)).whole
    (UInt8.ofNat (payload.length + 1) :: taken) (payload.drop count ++ rest)
  rw [List.length_take, Nat.min_eq_left within, ← List.append_assoc, List.take_append_drop] at front
  rw [readShort, if_pos whole, varies, ByteOrder.frame_variable, ByteOrder.encode_one]
  refine Eq.trans ?_ front
  change ByteQueue.take (order.decode [UInt8.ofNat (payload.length + 1)] - 1) _ = _
  rw [header]
  rfl

/-- The first call of a store writes the value, and the first call of a read into any value of the
field takes exactly these bytes and stores the same integer. -/
def Arrives (l : Leaf) : Prop :=
  ∀ order : ByteOrder, ∃ record,
    (∀ r : Request, r.isFollowUp = false → l.store order r = .ok (.whole record)) ∧
    ∀ target : Leaf, target.Typed → target.place = l.place →
      ∀ (r : Request) (taken rest : List UInt8), r.isFollowUp = false → ∃ read : Leaf,
        target.parse r ⟨order, taken, record ++ rest⟩ =
          (read, .ok (.done ⟨order, record.reverse ++ taken, rest⟩)) ∧
        read.stored? = l.stored?

def sent (bytes ifEmpty : List UInt8) : List UInt8 :=
  if bytes.isEmpty then ifEmpty else bytes

theorem length_sent_lt {bytes ifEmpty : List UInt8} (one : ifEmpty.length = 1) :
    (sent bytes ifEmpty).length < 255 ↔ bytes.length < 255 := by
  cases bytes with
  | nil => exact iff_of_true (one.trans_lt (by decide)) (by decide)
  | cons b bytes => rfl

theorem storeDecimal_variable (varies : p.type.length = 0) (bytes ifEmpty : List UInt8)
    (order : ByteOrder) : storeDecimal p bytes ifEmpty =
      .whole (order.frame 1 p.type.length (sent bytes ifEmpty)) := by
  rw [storeDecimal, p.type.isVariable_iff.mpr varies, Bool.true_and, storeShort_eq p _ order, sent]

/-- A field that keeps its decimal as bytes. They arrive if the header counts them, and no bytes if
those that are sent instead are the same number. -/
theorem arrives_iff_of (varies : p.type.length = 0) (content : List UInt8 → Content)
    (bytes ifEmpty : List UInt8) (one : ifEmpty.length = 1)
    (typed : ∀ c : Content, c.IsOf p.type.kind ↔ ∃ before, c = content before)
    (stores : ∀ order (r : Request), r.isFollowUp = false →
      store order r ⟨p, content bytes⟩ = .ok (storeDecimal p bytes ifEmpty))
    (parses : ∀ before (r : Request) q, r.isFollowUp = false →
      parse r q ⟨p, content before⟩ = match readShort p q with
        | .error shortage => (⟨p, content before⟩, .error (.shortBuffer shortage))
        | .ok (bytes, q') => (⟨p, content bytes⟩, .ok (.done q'))) :
    (⟨p, content bytes⟩ : Leaf).Arrives ↔ bytes.length < 255 ∧
      (bytes = [] → stored? ⟨p, content ifEmpty⟩ = stored? ⟨p, content bytes⟩) := by
  have record (order : ByteOrder) (r : Request) (first : r.isFollowUp = false) :
      store order r ⟨p, content bytes⟩ =
        .ok (.whole (order.frame 1 p.type.length (sent bytes ifEmpty))) := by
    rw [stores order r first, storeDecimal_variable varies]
  constructor
  · intro arrives
    obtain ⟨written, stored, reads⟩ := arrives .big
    cases (record .big (.ofCall true 0) rfl).symm.trans (stored (.ofCall true 0) rfl)
    have source : (⟨p, content bytes⟩ : Leaf).Typed := (typed _).mpr ⟨bytes, rfl⟩
    obtain ⟨read, parsed, same⟩ := reads _ source rfl (.ofCall false 0) [] [] rfl
    rw [parses _ _ _ rfl, readShort_frame varies] at parsed
    obtain ⟨rfl, queue⟩ := Prod.mk.inj parsed
    simp only [Except.ok.injEq, Progress.done, Progress.mk.injEq, ByteQueue.mk.injEq,
      List.append_nil, List.drop_eq_nil_iff, true_and, and_true] at queue
    obtain ⟨-, counted⟩ := queue
    refine ⟨(length_sent_lt one).mp (by omega), fun none => ?_⟩
    rw [← same, List.take_of_length_le counted, none]
    rfl
  · rintro ⟨short, zero⟩ order
    have counted := (length_sent_lt one).mpr short
    have whole : (sent bytes ifEmpty).length ≤ ((sent bytes ifEmpty).length + 1) % 256 - 1 := by
      omega
    refine ⟨_, record order, fun target typed' there r taken rest first => ?_⟩
    obtain ⟨place, content'⟩ := target
    cases there
    obtain ⟨before, rfl⟩ := (typed content').mp typed'
    refine ⟨⟨p, content (sent bytes ifEmpty)⟩, ?_, ?_⟩
    · rw [parses _ _ _ first, readShort_frame varies, List.take_of_length_le whole,
        List.drop_of_length_le whole, varies, ByteOrder.frame_variable, ByteOrder.encode_one,
        List.reverse_append, List.append_assoc]
      rfl
    · cases bytes with
      | nil => exact zero rfl
      | cons b bytes => rfl

theorem arrives_packed (varies : p.type.length = 0) {meaning : PackedContent}
    (kind : p.type.kind = .packed meaning) (bytes : List UInt8) :
    (⟨p, .packed meaning bytes⟩ : Leaf).Arrives ↔
      bytes.length < 255 ∧ (bytes = [] → p.WritesZero) := by
  have typed (c : Content) : c.IsOf p.type.kind ↔ ∃ before, c = .packed meaning before := by
    constructor
    · intro isOf
      simpa only [kind] using isOf.of_kind
    · rintro ⟨before, rfl⟩
      exact kind
  rw [arrives_iff_of varies (.packed meaning) bytes (PackedField.emptyPayload p) rfl typed
    ?stores ?parses]
  case stores =>
    intro order r first
    rw [store, first]
    rfl
  case parses =>
    intro before r q first
    simp only [parse, first, readContent]
    cases readShort p q <;> rfl
  refine and_congr_right fun _ => forall_congr' fun none => ?_
  subst none
  have zero : stored? ⟨p, .packed meaning []⟩ = some 0 := rfl
  rw [zero]
  refine Outcome.toOption_eq_some.trans (Decimal.Packed.decode_sign.trans ?_)
  exact ⟨fun half _ _ => half, fun writes => writes meaning kind⟩

theorem arrives_unpacked (varies : p.type.length = 0) (kind : p.type.kind = .unpacked)
    (bytes : List UInt8) :
    (⟨p, .unpacked bytes⟩ : Leaf).Arrives ↔
      bytes.length < 255 ∧ (bytes = [] → p.WritesZero) := by
  have typed (c : Content) : c.IsOf p.type.kind ↔ ∃ before, c = .unpacked before := by
    constructor
    · intro isOf
      simpa only [kind] using isOf.of_kind
    · rintro ⟨before, rfl⟩
      exact kind
  rw [arrives_iff_of varies .unpacked bytes (UnpackedField.emptyPayload p) rfl typed
    ?stores ?parses]
  case stores =>
    intro order r first
    rw [store, first]
    rfl
  case parses =>
    intro before r q first
    simp only [parse, first, readContent]
    cases readShort p q <;> rfl
  refine and_congr_right fun _ => forall_congr' fun none => ?_
  subst none
  have zero : Decimal.Zoned.decode p.platform.zones (UnpackedField.emptyPayload p) = .ok 0 :=
    Decimal.Zoned.decode_zeros_append p.platform.distinct_zones.digit rfl 1
  have writes : p.WritesZero := fun meaning packed => by cases kind.symm.trans packed
  exact iff_of_true (Outcome.toOption_eq_some.mpr zero) writes

/-- What was assigned to a variable decimal field arrives, but for raw bytes that the length header
does not count and for a missing number that is written as no zero. -/
theorem variable_decimals_arrive [Libraries] {l l' : Leaf} (typed : l.Typed)
    (decimal : l.place.type.VariableDecimal) {s : Scalar} (assigned : l.assign s = .ok l') :
    l'.Arrives ↔ ∀ raw, s = .bytes raw → raw.length < 255 ∧ (raw = [] → l.place.WritesZero) := by
  have arrives {bytes : List UInt8} (left : s.LeavesShort bytes)
      (iff : l'.Arrives ↔ bytes.length < 255 ∧ (bytes = [] → l.place.WritesZero)) :
      l'.Arrives ↔ ∀ raw, s = .bytes raw → raw.length < 255 ∧ (raw = [] → l.place.WritesZero) := by
    rw [iff]
    obtain rfl | ⟨number, given, short⟩ := left
    · simp only [Scalar.bytes.injEq, forall_eq']
    · exact iff_of_true ⟨short, fun none => absurd none given⟩
        fun raw same => absurd same (number raw)
  obtain ⟨content, changed, rfl⟩ := Outcome.map_ok.mp assigned
  obtain ⟨p, before⟩ := l
  have decimal : p.type.VariableDecimal := decimal
  have shape := Content.IsOf.of_kind typed
  obtain ⟨meaning, kind⟩ | kind := decimal.kind
  · simp only [kind] at shape
    obtain ⟨b, rfl⟩ := shape
    obtain ⟨bytes, packed, rfl⟩ := Outcome.map_ok.mp changed
    exact arrives (PackedField.leavesShort decimal.varies packed)
      (arrives_packed decimal.varies kind bytes)
  · simp only [kind] at shape
    obtain ⟨b, rfl⟩ := shape
    obtain ⟨bytes, zoned, rfl⟩ := Outcome.map_ok.mp changed
    exact arrives (UnpackedField.leavesShort decimal.varies zoned)
      (arrives_unpacked decimal.varies kind bytes)

theorem assign_raw [Libraries] (varies : p.type.length = 0) {meaning : PackedContent}
    {before bytes : List UInt8} {v : Int} (read : Decimal.Packed.decode bytes = .ok v) :
    (⟨p, .packed meaning before⟩ : Leaf).assign (.bytes bytes) =
      .ok ⟨p, .packed meaning bytes⟩ := by
  have laid : PackedField.layout p bytes = .ok bytes := by
    unfold PackedField.layout
    dsimp only
    rw [varies, if_neg (fun limited => Nat.lt_irrefl 0 limited.1), read, Nat.zero_sub]
    rfl
  exact Outcome.map_ok.mpr ⟨_, Outcome.map_ok.mpr ⟨_, laid, rfl⟩, rfl⟩

namespace Sample

def sum : Place :=
  .top { FieldType.ofKind (.packed .number) "PA" with length := 0 } .openSystem

def paddedOne : List UInt8 :=
  List.replicate 255 0 ++ [0x1C]

end Sample

theorem sum_arrives : (fresh Sample.sum).Typed ∧ Sample.sum.type.VariableDecimal ∧
    ∃ l, (fresh Sample.sum).assign (.int (-5)) = .ok l ∧ l.stored? = some (-5) ∧ l.Arrives := by
  have typed : (fresh Sample.sum).Typed := typed_fresh rfl
  have decimal : Sample.sum.type.VariableDecimal := ⟨.inl ⟨_, rfl⟩, rfl⟩
  have encoded : PackedField.encode Sample.sum (-5) = .ok [0x5B] := by decide +kernel
  have assigned : (fresh Sample.sum).assign (.int (-5)) =
      .ok ⟨Sample.sum, .packed .number [0x5B]⟩ :=
    (assign_packed (Place.scales_of_integer (Nat.zero_le 18) (s := .int (-5)) rfl) rfl).mpr
      ⟨_, encoded, rfl⟩
  exact ⟨typed, decimal, _, assigned, rfl,
    (variable_decimals_arrive typed decimal assigned).mpr fun raw same => by cases same⟩

theorem padded_one_lost :
    let l : Leaf := ⟨Sample.sum, .packed .number Sample.paddedOne⟩
    (fresh Sample.sum).assign (.bytes Sample.paddedOne) = .ok l ∧ l.stored? = some 1 ∧
      l.store .big (.ofCall true 0) = .ok (.whole (0x01 :: Sample.paddedOne)) ∧
      (fresh Sample.sum).parse (.ofCall false 0) (.ofList .big (0x01 :: Sample.paddedOne)) =
        (⟨Sample.sum, .packed .number []⟩, .ok (.done ⟨.big, [0x01], Sample.paddedOne⟩)) ∧
      stored? ⟨Sample.sum, .packed .number []⟩ = some 0 ∧ ¬l.Arrives := by
  have one : Decimal.Packed.decode Sample.paddedOne = .ok 1 :=
    Decimal.Packed.decode_zeros_append rfl 255
  have length : Sample.paddedOne.length = 256 := by decide +kernel
  have start : fresh Sample.sum = ⟨Sample.sum, .packed .number []⟩ := rfl
  rw [start]
  refine ⟨assign_raw rfl one, ?_, ?_, ?_, rfl, ?_⟩
  · change (Decimal.Packed.decode Sample.paddedOne).toOption = some 1
    rw [one]
    rfl
  · change Except.ok (storeDecimal Sample.sum Sample.paddedOne _) = _
    rw [storeDecimal_variable rfl _ _ .big, sent, if_neg (by decide +kernel)]
    change Except.ok (Chunk.whole (ByteOrder.big.frame 1 0 Sample.paddedOne)) = _
    rw [ByteOrder.frame_variable, ByteOrder.encode_one, length]
    rfl
  · generalize Sample.paddedOne = bytes
    rfl
  · intro arrives
    have short := ((arrives_packed rfl rfl _).mp arrives).1
    omega

end Leaf

end RecordCodec
