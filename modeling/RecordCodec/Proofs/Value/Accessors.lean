import RecordCodec.Libraries.Standard
import RecordCodec.Proofs.Settings
import RecordCodec.Proofs.Value.Integers

/-!
Integers in fields, as the accessors give them. A field takes an integer exactly if its scaled
number fits the field; then every accessor gives the integer where its type holds it and is out of
range else, and the bytes of the value stand for the value itself.
-/
namespace RecordCodec

def Platform.OwnSigns (platform : Platform) : Prop :=
  platform.packedSigns = (Platform.ofArchitecture platform.architecture).packedSigns

theorem Platform.OwnSigns.conventional {platform : Platform} (own : platform.OwnSigns) :
    platform.packedSigns.Conventional := by
  rw [own]
  exact Platform.conventional_ofArchitecture _

theorem Bytes.capacity_eq (width : Nat) : Bytes.capacity width = 256 ^ width := by
  induction width with
  | zero => rfl
  | succ width ih => rw [Bytes.capacity, ih, Nat.pow_succ, Nat.mul_comm]

namespace FieldType

/-- A binary or packed field of any length with at most eighteen fractional digits, or a field of at
most eight raw bytes; a length of zero is a variable one. -/
inductive HoldsIntegers (t : FieldType) : Prop
  | binary {width : BinaryWidth} {signed : Bool} (kind : t.kind = .binary width signed)
      (digits : t.fraction ≤ 18)
  | packed {content : PackedContent} (kind : t.kind = .packed content) (digits : t.fraction ≤ 18)
  | octets (kind : t.kind = .octets) (short : t.length ≤ 8)

/-- Whether a field holds the integer `v` with its fractional digits. -/
def Fits (t : FieldType) (v : Int) : Prop :=
  match t.kind with
  | .binary width signed => InWord width.bytes signed (v * 10 ^ t.fraction)
  | .packed _ => InWord 8 true (v * 10 ^ t.fraction) ∧
    (t.length ≠ 0 → (v * 10 ^ t.fraction).natAbs < 10 ^ (2 * t.length - 1))
  | .octets => 0 ≤ v ∧ v < 256 ^ (if t.length = 0 then 8 else t.length)
  | _ => False

end FieldType

/-! ### Accessors -/

/-- The outcome is `v` where `v` is `held`, and out of range else. -/
def Outcome.Gives (outcome : Except FieldFault Int) (held : Prop) (v : Int) : Prop :=
  (held → outcome = .ok v) ∧ (¬held → ∃ fault, outcome = .error fault ∧ fault.code = 57)

theorem Outcome.Gives.bind {first : Except FieldFault Int} {next : Int → Except FieldFault Int}
    {held held' : Prop} {v : Int} (one : Outcome.Gives first held v)
    (two : Outcome.Gives (next v) held' v) (narrower : held' → held) :
    Outcome.Gives (first >>= next) held' v := by
  constructor
  · intro here
    rw [one.1 (narrower here)]
    exact two.1 here
  · intro out
    by_cases wide : held
    · rw [one.1 wide]
      exact two.2 out
    · obtain ⟨fault, failed, code⟩ := one.2 wide
      exact ⟨fault, by rw [failed]; rfl, code⟩

theorem Place.within_gives (p : Place) (low high v : Int) :
    Outcome.Gives (p.within low high v) (low ≤ v ∧ v ≤ high) v :=
  ⟨fun held => if_pos held, fun out => ⟨_, if_neg out, rfl⟩⟩

namespace Value

theorem narrow_gives (value : Value) (width : Nat) (low high v : Int) :
    Outcome.Gives (value.narrow width low high v) (low ≤ v ∧ v ≤ high) v :=
  ⟨fun held => if_pos held, fun out => ⟨_, if_neg out, rfl⟩⟩

/-- Every accessor gives `v` where its type holds `v`, and is out of range else. -/
structure Represents (value : Value) (v : Int) : Prop where
  int64 : Outcome.Gives value.int64 (InWord 8 true v) v
  uint64 : Outcome.Gives value.uint64 (InWord 8 false v) v
  signed : ∀ width : BinaryWidth,
    Outcome.Gives (value.signedNumber width) (InWord width.bytes true v) v
  unsigned : ∀ width : BinaryWidth,
    Outcome.Gives (value.unsignedNumber width) (InWord width.bytes false v) v

theorem represents_of_integer {l : Leaf} {v : Int} (number : ∀ target, l.integer target = .ok v) :
    (leaf l).Represents v := by
  have int64 : Outcome.Gives (leaf l).int64 (InWord 8 true v) v := by
    have step : (leaf l).int64 = l.place.toInt64 v := by
      show l.integer .int64 >>= l.place.toInt64 = _
      rw [number]
      rfl
    rw [step, inWord_int64]
    exact l.place.within_gives int64Min int64Max v
  have uint64 : Outcome.Gives (leaf l).uint64 (InWord 8 false v) v := by
    have step : (leaf l).uint64 = l.place.toUInt64 v := by
      show l.integer .uint64 >>= l.place.toUInt64 = _
      rw [number]
      rfl
    rw [step, inWord_uint64]
    exact l.place.within_gives 0 uint64Max v
  refine ⟨int64, uint64, fun width => ?_, fun width => ?_⟩
  · refine int64.bind ?_ InWord.of_width
    rw [inWord_width]
    exact narrow_gives ..
  · refine uint64.bind ?_ InWord.of_width
    rw [inWord_width]
    exact narrow_gives ..

end Value

/-! ### The kinds of fields -/

namespace IntegerField

variable {p : Place} {width : BinaryWidth} {signed : Bool} {raw : Int}

theorem check_eq_ok {v : Int} :
    check p width signed raw = .ok v ↔ InWord width.bytes signed raw ∧ v = raw := by
  rw [inWord_width, ← exists_check_iff (p := p)]
  constructor
  · intro h
    exact ⟨⟨v, h⟩, check_ok h⟩
  · rintro ⟨⟨v', h⟩, rfl⟩
    rwa [check_ok h] at h

theorem assign_encode [Libraries] (held : InWord width.bytes signed raw) :
    assign p width signed (.bytes (encode p.platform.byteOrder width raw)) = .ok raw := by
  obtain ⟨low, high⟩ := inWord_width.mp held
  have read : ofBytes p width signed (encode p.platform.byteOrder width raw) = .ok raw := by
    unfold ofBytes encode
    rw [ByteOrder.length_encode, if_neg (lt_irrefl _), ByteOrder.decode_encode,
      Nat.mod_eq_of_lt (unsignedOf_lt width raw), ofNat_unsignedOf low high]
  show (ofBytes p width signed _ >>= check p width signed) = _
  rw [read]
  exact check_eq_ok.mpr ⟨held, rfl⟩

end IntegerField

namespace PackedField

variable {p : Place} {v : Int} {bytes : List UInt8}

theorem exists_encode (counted : p.type.CountsDigits) : (∃ bytes, encode p v = .ok bytes) ↔
    InWord 8 true v ∧ (p.type.length ≠ 0 → v.natAbs < 10 ^ (2 * p.type.length - 1)) := by
  rw [inWord_int64]
  by_cases varying : p.type.length = 0
  · simp only [encode_ok counted, if_pos varying, exists_and_left,
      Decimal.Packed.exists_encode_iff]
    simp [varying]
  · rw [exists_encode_iff (Nat.pos_of_ne_zero varying) counted]
    constructor
    · rintro ⟨bound, held⟩
      exact ⟨held, fun _ => bound⟩
    · rintro ⟨held, bound⟩
      exact ⟨bound varying, held⟩

theorem layout_encode (encoded : encode p v = .ok bytes)
    (decodes : Decimal.Packed.decode bytes = .ok v) : layout p bytes = .ok bytes := by
  obtain ⟨-, -, encoded⟩ := of_encode encoded
  have length := Decimal.Packed.length_encode encoded
  have fits : ¬(0 < p.type.length ∧ p.type.length < bytes.length) := by
    split at length <;> omega
  have filled : p.type.length - bytes.length = 0 := by
    split at length <;> omega
  simp only [layout, if_neg fits, decodes, filled, List.replicate_zero, List.nil_append]

end PackedField

namespace OctetField

def numberLength (t : FieldType) : Nat :=
  if t.length = 0 then 8 else t.length

variable {p : Place} {n : Nat} {bytes : List UInt8}

theorem numberLength_le (short : p.type.length ≤ 8) : numberLength p.type ≤ 8 := by
  unfold numberLength
  split <;> omega

theorem layoutNumber_ok (short : p.type.length ≤ 8) (held : n < 256 ^ 8) {shown : List Char} :
    layoutNumber p n shown = .ok bytes ↔ n < 256 ^ numberLength p.type ∧
      bytes = p.platform.byteOrder.encode (numberLength p.type) n := by
  have room : ¬(numberLength p.type < 8 ∧ Bytes.capacity (numberLength p.type) ≤ n) ↔
      n < 256 ^ numberLength p.type := by
    rw [Bytes.capacity_eq]
    rcases (numberLength_le short).lt_or_eq with less | full
    · simp [less]
    · rw [full]
      exact iff_of_true (fun few => lt_irrefl _ few.1) held
  show (if _ then Except.error _ else Except.ok _) = Except.ok bytes ↔ _
  rw [Outcome.unless_ok, Except.ok.injEq, eq_comm (b := bytes)]
  exact and_congr_left' room

theorem layout_encode :
    layout p (p.platform.byteOrder.encode (numberLength p.type) n) =
      .ok (p.platform.byteOrder.encode (numberLength p.type) n) := by
  unfold layout numberLength maxVariable
  by_cases varying : p.type.length = 0 <;> simp [varying]

theorem number_encode (short : p.type.length ≤ 8) (fits : n < 256 ^ numberLength p.type) :
    number p (p.platform.byteOrder.encode (numberLength p.type) n) = .ok (n : Int) := by
  rw [number, ByteOrder.length_encode, if_neg (not_lt.mpr (numberLength_le short)),
    ByteOrder.decode_encode, Bytes.capacity_eq, Nat.mod_eq_of_lt fits]

end OctetField

namespace Leaf

/-- What a field does with a scalar that is the integer `v`: it takes the scalar exactly if `v`
`fits`, then it gives `v`, and its bytes stand for the value. -/
structure Handles [Libraries] (l : Leaf) (s : Scalar) (v : Int) (fits : Prop) : Prop where
  taken : (∃ l', l.assign s = .ok l') ↔ fits
  number : ∀ l', l.assign s = .ok l' → ∀ target, l'.integer target = .ok v
  bytes : ∀ l', l.assign s = .ok l' → l'.assign (.bytes l'.bytes) = .ok l'

theorem handles_of [Libraries] {l : Leaf} {s : Scalar} {v : Int} {fits : Prop} (l' : Leaf)
    (assigned : ∀ read, l.assign s = .ok read ↔ fits ∧ read = l')
    (number : fits → ∀ target, l'.integer target = .ok v)
    (bytes : fits → l'.assign (.bytes l'.bytes) = .ok l') : l.Handles s v fits where
  taken := ⟨fun ⟨_, h⟩ => ((assigned _).mp h).1, fun here => ⟨l', (assigned l').mpr ⟨here, rfl⟩⟩⟩
  number read h := by
    obtain ⟨here, rfl⟩ := (assigned read).mp h
    exact number here
  bytes read h := by
    obtain ⟨here, rfl⟩ := (assigned read).mp h
    exact bytes here

variable {p : Place} {s : Scalar} {v : Int}

theorem handles_binary [Libraries] {width : BinaryWidth} {signed : Bool}
    (kind : p.type.kind = .binary width signed) (digits : p.type.fraction ≤ 18)
    (integer : s.integer? = some v) (before : Int) :
    (⟨p, .integer width signed before⟩ : Leaf).Handles s v (p.type.Fits v) := by
  have scales := Place.scales_of_integer digits integer
  have fits : p.type.Fits v ↔ InWord width.bytes signed (v * p.unit) := by
    rw [FieldType.Fits, kind, Place.unit_eq scales.unit]
  have checked : IntegerField.assign p width signed s =
      IntegerField.check p width signed (v * p.unit) := by
    cases s with
    | int | uint =>
      show (p.scaled _ >>= IntegerField.check p width signed) = _
      rw [Place.scaled_integer scales integer]
      rfl
    | float | text | bytes => cases integer
  refine handles_of ⟨p, .integer width signed (v * p.unit)⟩ (fun read => ?_) ?_ ?_
  · rw [fits]
    constructor
    · intro h
      obtain ⟨_, changed, rfl⟩ := Outcome.map_ok.mp h
      obtain ⟨raw, assigned, rfl⟩ := Outcome.map_ok.mp changed
      obtain ⟨held, rfl⟩ := IntegerField.check_eq_ok.mp (checked.symm.trans assigned)
      exact ⟨held, rfl⟩
    · rintro ⟨held, rfl⟩
      have assigned := checked.trans (IntegerField.check_eq_ok.mpr ⟨held, rfl⟩)
      exact Outcome.map_ok.mpr ⟨_, Outcome.map_ok.mpr ⟨_, assigned, rfl⟩, rfl⟩
  · intro _ target
    exact (Place.unscaled_ok scales.unit).mpr rfl
  · intro held
    have assigned := IntegerField.assign_encode (p := p) (fits.mp held)
    exact Outcome.map_ok.mpr ⟨_, Outcome.map_ok.mpr ⟨_, assigned, rfl⟩, rfl⟩

theorem fits_packed {content : PackedContent} (kind : p.type.kind = .packed content)
    (digits : p.type.fraction ≤ 18) (counted : p.type.CountsDigits) :
    (∃ bytes, PackedField.encode p (v * p.unit) = .ok bytes) ↔ p.type.Fits v := by
  have held : p.type.fraction ≤ 38 := digits.trans (by decide)
  rw [FieldType.Fits, kind, PackedField.exists_encode counted, Place.unit_eq held]

variable [Libraries]

theorem handles_packed {content : PackedContent} (signs : p.platform.OwnSigns)
    (digits : p.type.fraction ≤ 18) (integer : s.integer? = some v) (before : List UInt8) :
    (⟨p, .packed content before⟩ : Leaf).Handles s v
      (∃ bytes, PackedField.encode p (v * p.unit) = .ok bytes) := by
  have scales := Place.scales_of_integer digits integer
  have decodes {bytes : List UInt8} (encoded : PackedField.encode p (v * p.unit) = .ok bytes) :
      Decimal.Packed.decode bytes = .ok (v * p.unit) := by
    have conventional := signs.conventional
    exact (PackedField.decode_encode conventional.halfBytes encoded).mpr
      (.inr (conventional.isNegative_ofInt _))
  refine ⟨⟨?_, ?_⟩, ?_, ?_⟩
  · rintro ⟨l', h⟩
    obtain ⟨bytes, encoded, -⟩ := (assign_packed scales integer).mp h
    exact ⟨bytes, encoded⟩
  · rintro ⟨bytes, encoded⟩
    exact ⟨_, (assign_packed scales integer).mpr ⟨bytes, encoded, rfl⟩⟩
  · intro l' h target
    obtain ⟨bytes, encoded, rfl⟩ := (assign_packed scales integer).mp h
    exact Outcome.bind_ok.mpr ⟨_, Outcome.mapError_ok.mpr (decodes encoded),
      (Place.unscaled_ok scales.unit).mpr rfl⟩
  · intro l' h
    obtain ⟨bytes, encoded, rfl⟩ := (assign_packed scales integer).mp h
    have same := PackedField.layout_encode encoded (decodes encoded)
    exact Outcome.map_ok.mpr ⟨_, Outcome.map_ok.mpr ⟨_, same, rfl⟩, rfl⟩

omit [Libraries] in
theorem fits_octets (kind : p.type.kind = .octets) :
    p.type.Fits v ↔ 0 ≤ v ∧ v < 256 ^ OctetField.numberLength p.type := by
  rw [FieldType.Fits, kind]
  rfl

omit [Libraries] in
/-- A byte array takes an integer that fits, as its bytes in the order of the platform. -/
theorem assign_octets (short : p.type.length ≤ 8) (kind : p.type.kind = .octets)
    (integer : s.integer? = some v) {bytes : List UInt8} :
    OctetField.assign p s = .ok bytes ↔ p.type.Fits v ∧
      bytes = p.platform.byteOrder.encode (OctetField.numberLength p.type) v.toNat := by
  rw [fits_octets kind]
  cases s with
  | uint n =>
    cases integer
    have held : n.toNat < 256 ^ 8 := n.toNat_lt
    show OctetField.layoutNumber p n.toNat _ = _ ↔ _
    rw [OctetField.layoutNumber_ok short held, ← Int.ofNat_lt]
    simp
  | int n =>
    cases integer
    by_cases positive : 0 ≤ n.toInt
    · have held : n.toInt.toNat < 256 ^ 8 := by
        have := n.toInt_lt
        omega
      show (if _ then _ else _) = _ ↔ _
      rw [if_pos positive, OctetField.layoutNumber_ok short held, and_iff_right positive,
        Int.toNat_lt positive]
      simp
    · show (if _ then _ else _) = _ ↔ _
      rw [if_neg positive]
      simp [positive]
  | float | text | bytes => cases integer

theorem handles_octets (short : p.type.length ≤ 8) (kind : p.type.kind = .octets)
    (integer : s.integer? = some v) (before : List UInt8) :
    (⟨p, .octets before⟩ : Leaf).Handles s v (p.type.Fits v) := by
  refine handles_of ⟨p, .octets
    (p.platform.byteOrder.encode (OctetField.numberLength p.type) v.toNat)⟩
    (fun read => ?_) ?_ ?_
  · constructor
    · intro h
      obtain ⟨_, changed, rfl⟩ := Outcome.map_ok.mp h
      obtain ⟨bytes, taken, rfl⟩ := Outcome.map_ok.mp changed
      obtain ⟨here, rfl⟩ := (assign_octets short kind integer).mp taken
      exact ⟨here, rfl⟩
    · rintro ⟨here, rfl⟩
      exact Outcome.map_ok.mpr ⟨_, Outcome.map_ok.mpr
        ⟨_, (assign_octets short kind integer).mpr ⟨here, rfl⟩, rfl⟩, rfl⟩
  · intro here target
    obtain ⟨positive, below⟩ := (fits_octets kind).mp here
    have bound : v.toNat < 256 ^ OctetField.numberLength p.type := by
      rw [Int.toNat_lt positive]
      exact_mod_cast below
    have read := OctetField.number_encode (p := p) short bound
    rwa [Int.toNat_of_nonneg positive] at read
  · intro _
    exact Outcome.map_ok.mpr ⟨_, Outcome.map_ok.mpr ⟨_, OctetField.layout_encode, rfl⟩, rfl⟩

theorem handles {l : Leaf} (typed : l.Typed) (holds : l.place.type.HoldsIntegers)
    (signs : l.place.platform.OwnSigns) (integer : s.integer? = some v) :
    ∃ fits, l.Handles s v fits ∧ (l.place.type.CountsPacked → (fits ↔ l.place.type.Fits v)) := by
  obtain ⟨p, content⟩ := l
  have holds : p.type.HoldsIntegers := holds
  have shape := typed.of_kind
  cases holds with
  | binary kind digits =>
    simp only [kind] at shape
    obtain ⟨before, rfl⟩ := shape
    exact ⟨_, handles_binary kind digits integer before, fun _ => Iff.rfl⟩
  | packed kind digits =>
    simp only [kind] at shape
    obtain ⟨before, rfl⟩ := shape
    exact ⟨_, handles_packed signs digits integer before,
      fun counted => fits_packed kind digits (counted kind)⟩
  | octets kind short =>
    simp only [kind] at shape
    obtain ⟨before, rfl⟩ := shape
    exact ⟨_, handles_octets short kind integer before, fun _ => Iff.rfl⟩

end Leaf

namespace Sample

def amount : Place :=
  .top { FieldType.ofKind (.packed .number) "PA" with length := 4, fraction := 2 } .mainframe

end Sample

end RecordCodec
