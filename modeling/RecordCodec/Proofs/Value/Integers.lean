import RecordCodec.Libraries.Standard
import RecordCodec.Proofs.Text.Words
import RecordCodec.Proofs.Value.Decimals
import RecordCodec.Proofs.Value.Exchange

/-!
The decimal text of an integer in a field without fractional digits. A binary field takes every
number of its width. A packed or unpacked field takes the numbers that its length holds, of those
with more than eighteen digits only the ones of 64 bits. What a field takes it shows again, also
after a store and a read; other numbers are out of its range.
-/
namespace RecordCodec

namespace FieldType

structure IsInteger (t : FieldType) : Prop where
  kind : (∃ width signed, t.kind = .binary width signed) ∨ t.kind = .packed .number ∨
    t.kind = .unpacked
  whole : t.fraction = 0
  given : 0 < t.length

def Takes (t : FieldType) (v : Int) : Prop :=
  match t.kind with
  | .binary width signed => IntegerField.low width signed ≤ v ∧ v ≤ IntegerField.high width signed
  | .packed _ => v.natAbs < 10 ^ (2 * t.length - 1) ∧ int64Min ≤ v ∧ v ≤ int64Max
  | .unpacked => v.natAbs < 10 ^ t.length ∧ int64Min ≤ v ∧ v ≤ int64Max
  | _ => False

def refusal (t : FieldType) (v : Int) : Nat :=
  match t.kind with
  | .binary _ false => if v < 0 then 101 else 57
  | _ => 57

theorem IsInteger.flat {t : FieldType} (integer : t.IsInteger) : t.kind.isStructure = false := by
  obtain ⟨width, signed, kind⟩ | kind | kind := integer.kind <;> rw [kind] <;> rfl

theorem IsInteger.exchanged {t : FieldType} (integer : t.IsInteger) :
    t.kind.Exchanged t.length := by
  have given := Nat.ne_of_gt integer.given
  obtain ⟨width, signed, kind⟩ | kind | kind := integer.kind <;> rw [kind]
  · exact trivial
  · exact given
  · exact given

theorem Takes.held {t : FieldType} {v : Int} (takes : t.Takes v) :
    int128Min ≤ v ∧ v ≤ int128Max := by
  unfold Takes at takes
  split at takes
  · rename_i width signed _
    obtain ⟨low, high⟩ := takes
    have bounds : int128Min ≤ IntegerField.low width signed ∧
        IntegerField.high width signed ≤ int128Max := by
      cases width <;> cases signed <;> decide
    exact ⟨bounds.1.trans low, high.trans bounds.2⟩
  · exact ⟨le_trans (by decide) takes.2.1, takes.2.2.trans (by decide)⟩
  · exact ⟨le_trans (by decide) takes.2.1, takes.2.2.trans (by decide)⟩
  · cases takes

end FieldType

namespace Place

variable {p : Place} {v : Int}

/-- The sign that a packed field writes for `v` is read as that sign, and the zones of an unpacked
one are read. -/
def Restores (p : Place) (v : Int) : Prop :=
  match p.type.kind with
  | .packed _ => p.platform.packedSigns.HalfBytes ∧ p.platform.packedSigns.Marks v
  | .unpacked => v ≠ int64Min
  | _ => True

theorem readScaled_ofInt [Libraries] (p : Place) (whole : p.type.fraction = 0) (low : int128Min ≤ v)
    (high : v ≤ int128Max) : p.readScaled (Text.ofInt v) = .ok v := by
  have read : Decimal.readScaled? 0 (Text.ofInt v) = some v := by
    rw [Decimal.readScaled?, Text.trim_of_noBlank (Text.noBlank_ofInt v)]
    simp [Text.afterPlus_ofInt, Text.readIntBetween?, Text.readInt?_ofInt, low, high]
  rw [readScaled, whole, read]

end Place

theorem Platform.distinct_zones (p : Platform) : p.zones.Distinct := by
  unfold zones
  split
  · exact Decimal.Zones.distinct_mainframe
  · exact Decimal.Zones.distinct_openSystem

namespace IntegerField

variable {p : Place} {width : BinaryWidth} {signed : Bool} {v : Int}

theorem exists_check_iff : (∃ v', check p width signed v = .ok v') ↔
    low width signed ≤ v ∧ v ≤ high width signed := by
  rw [check]
  by_cases negative : v < 0 ∧ signed = false
  · obtain ⟨below, rfl⟩ := negative
    rw [if_pos ⟨below, rfl⟩]
    exact ⟨nofun, fun held => absurd held.1 (not_le.mpr below)⟩
  · rw [if_neg negative]
    exact ⟨fun ⟨_, held⟩ => (Place.within_ok held).2, fun held => ⟨v, if_pos held⟩⟩

theorem check_ok {v' : Int} (h : check p width signed v = .ok v') : v' = v := by
  unfold check at h
  split at h
  · cases h
  · exact (Place.within_ok h).1

theorem code_check {fault : FieldFault} (h : check p width signed v = .error fault) :
    fault.code = if v < 0 ∧ signed = false then 101 else 57 := by
  unfold check at h
  split at h
  · rename_i negative
    cases h
    exact (if_pos negative).symm
  · rename_i fits
    unfold Place.within at h
    split at h <;> cases h
    exact (if_neg fits).symm

end IntegerField

namespace PackedField

variable {p : Place} {v : Int}

theorem exists_encode_iff (given : 0 < p.type.length) (counted : p.type.CountsDigits) :
    (∃ bytes, encode p v = .ok bytes) ↔
      v.natAbs < 10 ^ (2 * p.type.length - 1) ∧ int64Min ≤ v ∧ v ≤ int64Max := by
  simp only [encode_ok counted, if_neg (Nat.ne_of_gt given), exists_and_left,
    Decimal.Packed.exists_encode_iff, Decimal.Packed.lengthFor_le_iff]
  constructor
  · rintro ⟨low, high, -, bound⟩
    exact ⟨bound, low, high⟩
  · rintro ⟨bound, low, high⟩
    exact ⟨low, high, given, bound⟩

theorem text_encode [Libraries] (whole : p.type.fraction = 0)
    (half : p.platform.packedSigns.HalfBytes)
    (marks : p.platform.packedSigns.Marks v) {bytes : List UInt8}
    (encoded : encode p v = .ok bytes) : text p .number bytes = Text.ofInt v := by
  rw [text, (decode_encode half encoded).mpr marks]
  exact if_pos whole

end PackedField

namespace UnpackedField

variable {p : Place} {v : Int}

theorem encode_ok {bytes : List UInt8} : encode p v = .ok bytes ↔ int64Min ≤ v ∧ v ≤ int64Max ∧
    Decimal.Zoned.encode p.platform.zones
      (if p.type.length = 0 then Decimal.Zoned.lengthFor v else p.type.length) v = .ok bytes :=
  Place.encodeHeld_ok

theorem exists_encode_iff (given : 0 < p.type.length) : (∃ bytes, encode p v = .ok bytes) ↔
    v.natAbs < 10 ^ p.type.length ∧ int64Min ≤ v ∧ v ≤ int64Max := by
  simp only [encode_ok, if_neg (Nat.ne_of_gt given), exists_and_left,
    Decimal.Zoned.exists_encode_iff, Decimal.Zoned.lengthFor_le_iff]
  constructor
  · rintro ⟨low, high, -, bound⟩
    exact ⟨bound, low, high⟩
  · rintro ⟨bound, low, high⟩
    exact ⟨low, high, given, bound⟩

theorem text_encode [Libraries] (whole : p.type.fraction = 0) (above : v ≠ int64Min)
    {bytes : List UInt8}
    (encoded : encode p v = .ok bytes) : text p bytes = Text.ofInt v := by
  obtain ⟨low, high, encoded⟩ := encode_ok.mp encoded
  rw [text, Decimal.Zoned.decode_encode p.platform.distinct_zones encoded (by omega) high]
  exact if_pos whole

end UnpackedField

namespace Leaf

/-- What a field does with the text of `v`: it shows the text if it takes the integer, and refuses
it as its kind does else. -/
structure Answers [Libraries] (l : Leaf) (v : Int) : Prop where
  taken : l.place.type.Takes v → ∃ l', l.assign (.text (Text.ofInt v)) = .ok l' ∧
    (l.place.Restores v → l'.text = Text.ofInt v)
  refused : ¬l.place.type.Takes v → ∃ fault, l.assign (.text (Text.ofInt v)) = .error fault ∧
    fault.code = l.place.type.refusal v

variable {l : Leaf} {p : Place} {v : Int}

theorem answers_of [Libraries] {α : Type} {encoded : Except FieldFault α} {content : α → Content}
    (assigned : l.assignContent (.text (Text.ofInt v)) = encoded.map content)
    (accepts : (∃ a, encoded = .ok a) ↔ l.place.type.Takes v)
    (code : ∀ fault, encoded = .error fault → fault.code = l.place.type.refusal v)
    (shown : ∀ a, encoded = .ok a → l.place.Restores v →
      text { l with content := content a } = Text.ofInt v) : l.Answers v := by
  constructor
  · intro takes
    obtain ⟨a, taken⟩ := accepts.mpr takes
    exact ⟨_, by rw [assign, assigned, taken]; rfl, shown a taken⟩
  · intro out
    cases same : encoded with
    | ok a => exact absurd (accepts.mp ⟨a, same⟩) out
    | error fault => exact ⟨fault, by rw [assign, assigned, same]; rfl, code fault same⟩

theorem answers_binary [Libraries] {width : BinaryWidth} {signed : Bool}
    (kind : p.type.kind = .binary width signed) (whole : p.type.fraction = 0)
    (read : p.readScaled (Text.ofInt v) = .ok v) (before : Int) :
    (⟨p, .integer width signed before⟩ : Leaf).Answers v := by
  have assigned : (⟨p, .integer width signed before⟩ : Leaf).assignContent
      (.text (Text.ofInt v)) = (IntegerField.check p width signed v).map
        (.integer width signed) := by
    show (p.readScaled (Text.ofInt v) >>= _).map _ = _
    rw [read]
    rfl
  refine answers_of assigned ?_ ?_ ?_
  · simp only [FieldType.Takes, kind, IntegerField.exists_check_iff]
  · intro fault refused
    rw [IntegerField.code_check refused]
    cases signed <;> simp [FieldType.refusal, kind]
  · intro v' taken _
    rw [IntegerField.check_ok taken]
    exact if_pos whole

theorem answers_packed [Libraries] (kind : p.type.kind = .packed .number)
    (whole : p.type.fraction = 0)
    (given : 0 < p.type.length) (counted : p.type.CountsDigits)
    (read : p.readScaled (Text.ofInt v) = .ok v) (before : List UInt8) :
    (⟨p, .packed .number before⟩ : Leaf).Answers v := by
  have assigned : (⟨p, .packed .number before⟩ : Leaf).assignContent (.text (Text.ofInt v)) =
      (PackedField.encode p v).map (.packed .number) := by
    show (p.readScaled (Text.ofInt v) >>= _).map _ = _
    rw [read]
    rfl
  refine answers_of assigned ?_ ?_ ?_
  · simp only [FieldType.Takes, kind, PackedField.exists_encode_iff given counted]
  · intro fault refused
    rw [Place.encodeHeld_error refused]
    simp only [FieldType.refusal, kind]
    rfl
  · intro bytes taken restores
    simp only [Place.Restores, kind] at restores
    exact PackedField.text_encode whole restores.1 restores.2 taken

theorem answers_unpacked [Libraries] (kind : p.type.kind = .unpacked) (whole : p.type.fraction = 0)
    (given : 0 < p.type.length) (read : p.readScaled (Text.ofInt v) = .ok v)
    (before : List UInt8) : (⟨p, .unpacked before⟩ : Leaf).Answers v := by
  have assigned : (⟨p, .unpacked before⟩ : Leaf).assignContent (.text (Text.ofInt v)) =
      (UnpackedField.encode p v).map .unpacked := by
    show (p.readScaled (Text.ofInt v) >>= _).map _ = _
    rw [read]
    rfl
  refine answers_of assigned ?_ ?_ ?_
  · simp only [FieldType.Takes, kind, UnpackedField.exists_encode_iff given]
  · intro fault refused
    rw [Place.encodeHeld_error refused]
    simp only [FieldType.refusal, kind]
    rfl
  · intro bytes taken restores
    simp only [Place.Restores, kind] at restores
    exact UnpackedField.text_encode whole restores taken

theorem answers [Libraries] {l : Leaf} (typed : l.Typed) (integer : l.place.type.IsInteger)
    (counted : l.place.type.CountsPacked) (low : int128Min ≤ v) (high : v ≤ int128Max) :
    l.Answers v := by
  obtain ⟨p, content⟩ := l
  have integer : p.type.IsInteger := integer
  have read := p.readScaled_ofInt integer.whole low high
  have shape := typed.of_kind
  obtain ⟨width, signed, kind⟩ | kind | kind := integer.kind
  · simp only [kind] at shape
    obtain ⟨before, rfl⟩ := shape
    exact answers_binary kind integer.whole read before
  · simp only [kind] at shape
    obtain ⟨before, rfl⟩ := shape
    exact answers_packed kind integer.whole integer.given (counted kind) read before
  · simp only [kind] at shape
    obtain ⟨before, rfl⟩ := shape
    exact answers_unpacked kind integer.whole integer.given read before

theorem assign_eq_fresh [Libraries] {l : Leaf} (typed : l.Typed) (s : Scalar) :
    l.assign s = (fresh l.place).assign s := by
  obtain ⟨p, content⟩ := l
  have shape := typed.of_kind
  have initial := (Content.isOf_initial (p := p) typed.flat).of_kind
  dsimp only [fresh] at shape initial ⊢
  cases kind : p.type.kind with
  | superDescriptor | binary | octets | float | packed | unpacked | text =>
    simp only [kind] at shape initial
    obtain ⟨before, rfl⟩ := shape
    obtain ⟨start, same⟩ := initial
    rw [same]
    rfl
  | pseudo | group | periodicGroup | multiple =>
    simp only [kind] at shape initial
    rw [shape, initial]

/-- A value that a read into any value of its field takes as it was stored. -/
def Travels (l : Leaf) : Prop :=
  ∀ order : ByteOrder, ∃ record,
    (∀ r : Request, r.isFollowUp = false → l.store order r = .ok (.whole record)) ∧
    ∀ target : Leaf, target.Typed → target.place = l.place →
      ∀ (r : Request) (taken rest : List UInt8), r.isFollowUp = false →
        target.parse r ⟨order, taken, record ++ rest⟩ =
          (l, .ok (.done ⟨order, record.reverse ++ taken, rest⟩))

theorem travels_of_suited {l : Leaf} (suited : l.Suited) (integer : l.place.type.IsInteger) :
    l.Travels := by
  intro order
  have noText : ∀ size unicode, l.place.type.kind ≠ .text size unicode := by
    intro size unicode text
    obtain ⟨width, signed, kind⟩ | kind | kind := integer.kind <;> cases kind.symm.trans text
  obtain ⟨record, stored, read⟩ := exchange suited
    (fun size unicode text => absurd text (noText size unicode)) integer.exchanged order
  have same : l.written = l := by
    unfold written
    split
    · rename_i size unicode c content
      have typed := suited.isOf integer.flat
      rw [content] at typed
      exact absurd typed (noText size unicode)
    · rfl
  refine ⟨record, stored, fun target typed there r taken rest first => ?_⟩
  obtain ⟨p, before⟩ := target
  cases there
  have back := read before typed r taken rest first
  rwa [same] at back

/-- A field of integers takes the text of every integer that its length holds, of decimals within 64
bits, and shows it again at once and after a store and a read; the text of any other integer of 128
bits is refused. -/
theorem integer_texts_answered [Libraries] {l : Leaf} (typed : l.Typed)
    (integer : l.place.type.IsInteger)
    (counted : l.place.type.CountsPacked) (v : Int) :
    (l.place.type.Takes v → ∃ l', l.assign (.text (Text.ofInt v)) = .ok l' ∧ l'.Travels ∧
      (l.place.Restores v → l'.text = Text.ofInt v)) ∧
    (¬l.place.type.Takes v → int128Min ≤ v → v ≤ int128Max →
      ∃ fault, l.assign (.text (Text.ofInt v)) = .error fault ∧
        fault.code = l.place.type.refusal v) := by
  constructor
  · intro takes
    obtain ⟨low, high⟩ := takes.held
    obtain ⟨l', assigned, shown⟩ := (answers typed integer counted low high).taken takes
    have suited : l'.Suited := suited_assign (suited_fresh l.place)
      ((assign_eq_fresh typed _).symm.trans assigned)
    have travels := travels_of_suited suited (by rw [place_assign assigned]; exact integer)
    exact ⟨l', assigned, travels, shown⟩
  · intro out low high
    exact (answers typed integer counted low high).refused out

end Leaf

namespace Sample

def wide : Place :=
  .top { FieldType.ofKind (.packed .number) "PA" with length := 10 } .openSystem

end Sample

theorem Leaf.wide_texts_answered :
    (∃ l, (Leaf.fresh Sample.wide).assign (.text (Text.ofInt int64Min)) = .ok l ∧ l.Travels ∧
      l.text = Text.ofInt int64Min) ∧
    ∃ fault, (Leaf.fresh Sample.wide).assign (.text (Text.ofInt (10 ^ 19))) = .error fault ∧
      fault.code = 57 := by
  have typed : (Leaf.fresh Sample.wide).Typed := Leaf.typed_fresh rfl
  have integer : Sample.wide.type.IsInteger := ⟨.inr (.inl rfl), rfl, by decide⟩
  have counted : Sample.wide.type.CountsPacked := fun _ => show 19 < UInt32.size by decide
  have low : Sample.wide.type.Takes int64Min := by
    show _ ∧ _
    decide
  have high : ¬Sample.wide.type.Takes (10 ^ 19) := by
    show ¬(_ ∧ _)
    decide
  have restores : Sample.wide.Restores int64Min :=
    ⟨⟨by decide, by decide⟩, .inr (by decide)⟩
  have answers := integer_texts_answered typed integer counted
  obtain ⟨l, assigned, travels, shown⟩ := (answers int64Min).1 low
  exact ⟨⟨l, assigned, travels, shown restores⟩,
    (answers (10 ^ 19)).2 high (by decide) (by decide)⟩

/-- The field has nineteen digits, but a number of nineteen digits beyond 64 bits is refused. -/
theorem Leaf.nineteen_digits_refused :
    (9223372036854775808 : Int).natAbs < 10 ^ (2 * Sample.wide.type.length - 1) ∧
    (Leaf.fresh Sample.wide).assign (.text (Text.ofInt 9223372036854775808)) =
      .error (.outOfRange "PA" "9223372036854775808" 10) ∧
    (FieldFault.outOfRange "PA" "9223372036854775808" 10).code = 57 :=
  ⟨by decide, rfl, rfl⟩

end RecordCodec
