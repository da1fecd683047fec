import RecordCodec.Libraries.Standard
import RecordCodec.Proofs.Decimal.Fractions
import RecordCodec.Proofs.Value.Accessors
import RecordCodec.Proofs.Value.Fixed

/-!
The texts of numbers, given back to their fields. A binary, packed or unpacked field takes the text
that it shows and stores the same integer again, exactly where its place restores the integer: where
a packed sign is read as it is written, and an unpacked number is not the least of 64 bits. All that
an assignment leaves in a field is such an integer, but for the least one.
-/
namespace RecordCodec

open Decimal (showScaled)

/-- A field of numbers with at most eighteen fractional digits. -/
structure FieldType.ShowsNumbers (t : FieldType) : Prop where
  kind : (∃ width signed, t.kind = .binary width signed) ∨ t.kind = .packed .number ∨
    t.kind = .unpacked
  digits : t.fraction ≤ 18

theorem FieldType.ShowsNumbers.flat {t : FieldType} (shows : t.ShowsNumbers) :
    t.kind.isStructure = false := by
  obtain ⟨width, signed, kind⟩ | kind | kind := shows.kind <;> rw [kind] <;> rfl

theorem Place.readScaled_showScaled [Libraries] (exact : Libraries.decimals.Exact) {p : Place}
    (digits : p.type.fraction ≤ 18) {n : Int} (low : int64Min ≤ n) (high : n ≤ uint64Max) :
    p.readScaled (showScaled p.type.fraction n) = .ok n := by
  have room : p.type.fraction ≤ Decimal.Library.maxScale := digits.trans (by decide)
  have fits : n.natAbs < Decimal.Library.mantissaBound := by
    have bound : Decimal.Library.mantissaBound = 79228162514264337593543950336 := rfl
    simp only [bound, int64Min, uint64Max] at low high ⊢
    omega
  rw [readScaled, Decimal.readScaled?_showScaled exact room fits]

/-- On a platform with the signs of its architecture only the least number of 64 bits is lost. -/
theorem Place.restores_of_ownSigns {p : Place} (own : p.platform.OwnSigns) {n : Int}
    (above : n ≠ int64Min) : p.Restores n := by
  unfold Restores
  split
  · exact ⟨own.conventional.halfBytes, .inr (own.conventional.isNegative_ofInt n)⟩
  · exact above
  · exact trivial

/-! ### Decimals that are read -/

namespace PackedField

variable {p : Place} {bytes : List UInt8} {n : Int}

theorem bounds_of_decode (read : Decimal.Packed.decode bytes = .ok n) :
    int64Min ≤ n ∧ n ≤ int64Max := by
  by_cases given : bytes = []
  · subst given
    cases read
    decide
  · exact ((Decimal.Packed.decode_ok given).mp read).2.2

theorem encodes_decoded (counted : p.type.CountsDigits)
    (extent : p.type.length ≠ 0 → bytes.length = p.type.length)
    (read : Decimal.Packed.decode bytes = .ok n) : ∃ packed, encode p n = .ok packed := by
  have bounds := bounds_of_decode read
  have fits : Decimal.Packed.lengthFor n ≤
      if p.type.length = 0 then Decimal.Packed.lengthFor n else p.type.length := by
    split
    · exact le_rfl
    · rename_i fixed
      have given : bytes ≠ [] := by
        rintro rfl
        exact fixed (extent fixed).symm
      have usual := (Platform.conventional_ofArchitecture p.platform.architecture).halfBytes
      obtain ⟨packed, written, -⟩ := Decimal.Packed.encode_decode usual given read
      rw [← extent fixed]
      exact Decimal.Packed.exists_encode_iff.mp ⟨packed, written⟩
  obtain ⟨packed, written⟩ : ∃ b, Decimal.Packed.encode p.platform.packedSigns _ n = .ok b :=
    Decimal.Packed.exists_encode_iff.mpr fits
  exact ⟨packed, (encode_ok counted).mpr ⟨bounds.1, bounds.2, written⟩⟩

/-- Only the least number of 64 bits is written and not read, where its sign is not marked. -/
theorem decodes_encoded (half : p.platform.packedSigns.HalfBytes)
    (written : encode p n = .ok bytes) : (∃ m, Decimal.Packed.decode bytes = .ok m) ∨
      n = int64Min ∧ ¬p.platform.packedSigns.Marks n := by
  by_cases marks : p.platform.packedSigns.Marks n
  · exact .inl ⟨n, (decode_encode half written).mpr marks⟩
  · obtain ⟨low, high, encoded⟩ := of_encode written
    by_cases least : n = int64Min
    · exact .inr ⟨least, marks⟩
    · refine .inl ⟨_, (Decimal.Packed.decode_encode half encoded).mpr ⟨rfl, ?_⟩⟩
      cases Decimal.Packed.isNegative (p.platform.packedSigns.ofInt n) <;>
        simp only [Decimal.signed, int64Min, int64Max, if_true, Bool.false_eq_true, if_false]
          at * <;>
        omega

theorem decodes_layout {packed : List UInt8} (laid : layout p bytes = .ok packed) :
    ∃ m, Decimal.Packed.decode packed = .ok m := by
  unfold layout at laid
  dsimp only at laid
  rw [Outcome.unless_ok] at laid
  cases read : Decimal.Packed.decode bytes with
  | error fault =>
    rw [read] at laid
    cases laid.2
  | ok m =>
    rw [read] at laid
    cases laid.2
    exact ⟨m, Decimal.Packed.decode_zeros_append read _⟩

end PackedField

namespace UnpackedField

variable {p : Place} {bytes : List UInt8} {n : Int}

theorem encodes_decoded (extent : p.type.length ≠ 0 → bytes.length = p.type.length)
    (read : Decimal.Zoned.decode p.platform.zones bytes = .ok n) :
    ∃ zoned, encode p n = .ok zoned := by
  obtain ⟨-, -, low, high⟩ := Decimal.Zoned.decode_ok.mp read
  have fits : Decimal.Zoned.lengthFor n ≤
      if p.type.length = 0 then Decimal.Zoned.lengthFor n else p.type.length := by
    split
    · exact le_rfl
    · rename_i fixed
      have given : bytes ≠ [] := by
        rintro rfl
        exact fixed (extent fixed).symm
      obtain ⟨zoned, written, -⟩ :=
        Decimal.Zoned.encode_decode p.platform.distinct_zones given read
      rw [← extent fixed]
      exact Decimal.Zoned.exists_encode_iff.mp ⟨zoned, written⟩
  obtain ⟨zoned, written⟩ : ∃ b, Decimal.Zoned.encode p.platform.zones _ n = .ok b :=
    Decimal.Zoned.exists_encode_iff.mpr fits
  exact ⟨zoned, encode_ok.mpr ⟨low.le, high, written⟩⟩

theorem decode_encode (written : encode p n = .ok bytes) :
    Decimal.Zoned.decode p.platform.zones bytes = .ok n ↔ n ≠ int64Min := by
  obtain ⟨low, high, encoded⟩ := encode_ok.mp written
  constructor
  · rintro read rfl
    exact absurd (Decimal.Zoned.decode_ok.mp read).2.2.1 (lt_irrefl _)
  · intro above
    exact Decimal.Zoned.decode_encode p.platform.distinct_zones encoded
      (lt_of_le_of_ne low above.symm) high

theorem decodes_layout {zoned : List UInt8} (laid : layout p bytes = .ok zoned) :
    ∃ m, Decimal.Zoned.decode p.platform.zones zoned = .ok m := by
  unfold layout at laid
  dsimp only at laid
  rw [Outcome.unless_ok] at laid
  cases read : Decimal.Zoned.decode p.platform.zones bytes with
  | error fault =>
    rw [read] at laid
    cases laid.2
  | ok m =>
    rw [read] at laid
    cases laid.2
    exact ⟨m, Decimal.Zoned.decode_zeros_append p.platform.distinct_zones.digit read _⟩

end UnpackedField

/-! ### Binary numbers -/

def Content.InWidth : Content → Prop
  | .integer width signed v => InWord width.bytes signed v
  | _ => True

theorem Leaf.lasting_inWidth [Libraries] : Leaf.Lasting fun l => l.content.InWidth where
  fresh p := by
    unfold fresh Content.initial
    dsimp only
    split <;> first | exact trivial | skip
    exact inWord_width.mpr ⟨IntegerField.low_le_zero _ _, IntegerField.zero_le_high _ _⟩
  assign {l l' s} held assigned := by
    obtain ⟨content, changed, rfl⟩ := Outcome.map_ok.mp assigned
    obtain ⟨p, before⟩ := l
    cases before with
    | superDescriptor | pseudo => cases changed
    | integer width signed v =>
      obtain ⟨v', taken, rfl⟩ := Outcome.map_ok.mp changed
      exact inWord_width.mpr (IntegerField.assign_within taken)
    | octets | float | packed | unpacked | text =>
      obtain ⟨_, -, rfl⟩ := Outcome.map_ok.mp changed
      exact trivial
  parse {l} r q held := by
    obtain ⟨p, before⟩ := l
    cases before with
    | text | pseudo => exact trivial
    | integer width signed v =>
      simp only [parse]
      split
      · exact held
      · split
        · exact held
        · rename_i read
          obtain ⟨⟨v', rest⟩, word, same⟩ := Outcome.map_ok.mp read
          cases same
          exact IntegerField.inWord_read word
    | octets | float | packed | unpacked | superDescriptor =>
      simp only [parse]
      split
      · exact trivial
      · split
        · exact trivial
        · rename_i read
          obtain ⟨_, -, same⟩ := Outcome.map_ok.mp read
          cases same
          exact trivial
  compose _ _ _ := trivial

/-! ### Texts that are given back -/

namespace Leaf

def stored? (l : Leaf) : Option Int :=
  match l.content with
  | .integer _ _ v => some v
  | .packed _ bytes => (Decimal.Packed.decode bytes).toOption
  | .unpacked bytes => (Decimal.Zoned.decode l.place.platform.zones bytes).toOption
  | _ => none

variable [Libraries]

/-- The field takes the text that it shows, and stores `n` then. -/
def Retakes (l : Leaf) (n : Int) : Prop :=
  ∃ l', l.assign (.text l.text) = .ok l' ∧ l'.stored? = some n

/-- What a field of numbers does with the text that it shows. -/
structure Rerenders (l : Leaf) : Prop where
  kept : l.place.type.CountsPacked →
    ∀ n, l.stored? = some n → l.place.Restores n → l.Retakes n
  restored : l.place.platform.packedSigns.HalfBytes → ∀ n, l.stored? = some n → l.Retakes n →
    l.place.Restores n
  assigned : l.place.platform.packedSigns.HalfBytes → ∀ s l', l.assign s = .ok l' →
    (∃ n, l'.stored? = some n) ∨ ¬l.place.Restores int64Min ∧
      l.assign (.text (showScaled l.place.type.fraction int64Min)) = .ok l'

variable {p : Place}

theorem retakes_iff {l : Leaf} {n : Int} {encoded : Except FieldFault Content}
    (assigned : l.assignContent (.text l.text) = encoded) :
    l.Retakes n ↔ ∃ content, encoded = .ok content ∧ stored? { l with content } = some n := by
  subst assigned
  constructor
  · rintro ⟨l', taken, stored⟩
    obtain ⟨content, changed, rfl⟩ := Outcome.map_ok.mp taken
    exact ⟨content, changed, stored⟩
  · rintro ⟨content, changed, stored⟩
    exact ⟨_, Outcome.map_ok.mpr ⟨content, changed, rfl⟩, stored⟩

theorem rerenders_binary (exact : Libraries.decimals.Exact) {width : BinaryWidth} {signed : Bool}
    {v : Int} (kind : p.type.kind = .binary width signed) (digits : p.type.fraction ≤ 18)
    (held : InWord width.bytes signed v) : (⟨p, .integer width signed v⟩ : Leaf).Rerenders := by
  have restores (n : Int) : p.Restores n := by
    rw [Place.Restores, kind]
    exact trivial
  have bounds : int64Min ≤ v ∧ v ≤ uint64Max := by
    have wide := held.of_width
    cases signed <;> simp only [InWord, int64Min, uint64Max] at wide ⊢ <;> simp at wide <;> omega
  have read := Place.readScaled_showScaled exact digits bounds.1 bounds.2
  have taken : (⟨p, .integer width signed v⟩ : Leaf).assignContent
      (.text (showScaled p.type.fraction v)) = .ok (.integer width signed v) := by
    show (p.readScaled _ >>= IntegerField.check p width signed).map _ = _
    rw [read]
    exact Outcome.map_ok.mpr ⟨v, IntegerField.check_eq_ok.mpr ⟨held, rfl⟩, rfl⟩
  refine ⟨fun _ n stored _ => ?_, fun _ n _ _ => restores n, fun _ s l' assigned => .inl ?_⟩
  · exact (retakes_iff taken).mpr ⟨_, rfl, stored⟩
  · obtain ⟨_, changed, rfl⟩ := Outcome.map_ok.mp assigned
    obtain ⟨v', -, rfl⟩ := Outcome.map_ok.mp changed
    exact ⟨v', rfl⟩

/-- A field that keeps its decimal as bytes. What is assigned is bytes that decode, or a number. -/
theorem rerenders_of {bytes : List UInt8} (content : List UInt8 → Content)
    (encode : Int → Except FieldFault (List UInt8))
    (decode : List UInt8 → Except Decimal.Fault Int)
    (stored : ∀ b n, stored? ⟨p, content b⟩ = some n ↔ decode b = .ok n)
    (shown : ∀ n, decode bytes = .ok n → text ⟨p, content bytes⟩ = showScaled p.type.fraction n)
    (read : ∀ n, int64Min ≤ n → n ≤ int64Max →
      assignContent ⟨p, content bytes⟩ (.text (showScaled p.type.fraction n)) =
        (encode n).map content)
    (bounds : ∀ n, decode bytes = .ok n → int64Min ≤ n ∧ n ≤ int64Max)
    (encodes : p.type.CountsPacked → ∀ n, decode bytes = .ok n → ∃ b, encode n = .ok b)
    (kept : ∀ n b, encode n = .ok b → p.Restores n → decode b = .ok n)
    (restored : p.platform.packedSigns.HalfBytes → ∀ n b, encode n = .ok b → decode b = .ok n →
      p.Restores n)
    (taken : ∀ s c, assignContent ⟨p, content bytes⟩ s = .ok c → ∃ b, c = content b ∧
      ((∃ n, decode b = .ok n) ∨ ∃ n, encode n = .ok b))
    (least : p.platform.packedSigns.HalfBytes → ∀ n b, encode n = .ok b →
      (∃ m, decode b = .ok m) ∨ n = int64Min ∧ ¬p.Restores n) :
    (⟨p, content bytes⟩ : Leaf).Rerenders := by
  have retakes (n : Int) (here : decode bytes = .ok n) :
      (⟨p, content bytes⟩ : Leaf).Retakes n ↔ ∃ b, encode n = .ok b ∧ decode b = .ok n := by
    obtain ⟨low, high⟩ := bounds n here
    rw [retakes_iff ((congrArg _ (congrArg _ (shown n here))).trans (read n low high))]
    constructor
    · rintro ⟨c, changed, same⟩
      obtain ⟨b, written, rfl⟩ := Outcome.map_ok.mp changed
      exact ⟨b, written, (stored b n).mp same⟩
    · rintro ⟨b, written, back⟩
      exact ⟨_, Outcome.map_ok.mpr ⟨b, written, rfl⟩, (stored b n).mpr back⟩
  refine ⟨fun counted n here restores => ?_, fun half n here again => ?_,
    fun half s l' assigned => ?_⟩
  · have here := (stored bytes n).mp here
    obtain ⟨b, written⟩ := encodes counted n here
    exact (retakes n here).mpr ⟨b, written, kept n b written restores⟩
  · obtain ⟨b, written, back⟩ := (retakes n ((stored bytes n).mp here)).mp again
    exact restored half n b written back
  · obtain ⟨c, changed, rfl⟩ := Outcome.map_ok.mp assigned
    obtain ⟨b, rfl, ⟨n, back⟩ | ⟨n, written⟩⟩ := taken s c changed
    · exact .inl ⟨n, (stored b n).mpr back⟩
    · obtain ⟨m, back⟩ | ⟨rfl, lost⟩ := least half n b written
      · exact .inl ⟨m, (stored b m).mpr back⟩
      · have text := (read int64Min (by decide) (by decide)).trans
          (Outcome.map_ok.mpr ⟨b, written, rfl⟩)
        exact .inr ⟨lost, Outcome.map_ok.mpr ⟨_, text, rfl⟩⟩

theorem rerenders_packed (exact : Libraries.decimals.Exact) {bytes : List UInt8}
    (kind : p.type.kind = .packed .number) (digits : p.type.fraction ≤ 18)
    (extent : p.type.length ≠ 0 → bytes.length = p.type.length) :
    (⟨p, .packed .number bytes⟩ : Leaf).Rerenders := by
  have restores (n : Int) : p.Restores n ↔
      p.platform.packedSigns.HalfBytes ∧ p.platform.packedSigns.Marks n := by
    rw [Place.Restores, kind]
  refine rerenders_of (.packed .number) (PackedField.encode p) Decimal.Packed.decode
    (fun b n => Outcome.toOption_eq_some) ?shown ?read (fun n => PackedField.bounds_of_decode)
    ?encodes ?kept ?restored ?taken ?least
  case shown =>
    intro n here
    show PackedField.text p .number bytes = _
    rw [PackedField.text, here]
  case read =>
    intro n low high
    show (p.readScaled _ >>= PackedField.encode p).map _ = _
    rw [Place.readScaled_showScaled exact digits low (high.trans (by decide))]
    rfl
  case encodes =>
    intro counted n here
    exact PackedField.encodes_decoded (counted kind) extent here
  case kept =>
    intro n b written here
    obtain ⟨half, marks⟩ := (restores n).mp here
    exact (PackedField.decode_encode half written).mpr marks
  case restored =>
    intro half n b written back
    exact (restores n).mpr ⟨half, (PackedField.decode_encode half written).mp back⟩
  case taken =>
    intro s c assigned
    obtain ⟨b, changed, rfl⟩ := Outcome.map_ok.mp assigned
    refine ⟨b, rfl, ?_⟩
    cases s with
    | bytes raw => exact .inl (PackedField.decodes_layout changed)
    | text | int | uint | float =>
      obtain ⟨n, -, written⟩ := Outcome.bind_ok.mp changed
      exact .inr ⟨n, written⟩
  case least =>
    intro half n b written
    refine (PackedField.decodes_encoded half written).imp_right ?_
    rintro ⟨rfl, lost⟩
    exact ⟨rfl, fun here => lost ((restores _).mp here).2⟩

theorem rerenders_unpacked (exact : Libraries.decimals.Exact) {bytes : List UInt8}
    (kind : p.type.kind = .unpacked) (digits : p.type.fraction ≤ 18)
    (extent : p.type.length ≠ 0 → bytes.length = p.type.length) :
    (⟨p, .unpacked bytes⟩ : Leaf).Rerenders := by
  have restores (n : Int) : p.Restores n ↔ n ≠ int64Min := by
    rw [Place.Restores, kind]
  refine rerenders_of .unpacked (UnpackedField.encode p) (Decimal.Zoned.decode p.platform.zones)
    (fun b n => Outcome.toOption_eq_some) ?shown ?read ?bounds ?encodes ?kept ?restored ?taken
    ?least
  case shown =>
    intro n here
    show UnpackedField.text p bytes = _
    rw [UnpackedField.text, here]
  case read =>
    intro n low high
    show (p.readScaled _ >>= UnpackedField.encode p).map _ = _
    rw [Place.readScaled_showScaled exact digits low (high.trans (by decide))]
    rfl
  case bounds =>
    intro n here
    obtain ⟨-, -, low, high⟩ := Decimal.Zoned.decode_ok.mp here
    exact ⟨low.le, high⟩
  case encodes =>
    intro _ n here
    exact UnpackedField.encodes_decoded extent here
  case kept =>
    intro n b written here
    exact (UnpackedField.decode_encode written).mpr ((restores n).mp here)
  case restored =>
    intro _ n b written back
    exact (restores n).mpr ((UnpackedField.decode_encode written).mp back)
  case taken =>
    intro s c assigned
    obtain ⟨b, changed, rfl⟩ := Outcome.map_ok.mp assigned
    refine ⟨b, rfl, ?_⟩
    cases s with
    | bytes raw => exact .inl (UnpackedField.decodes_layout changed)
    | text | int | uint | float =>
      obtain ⟨n, -, written⟩ := Outcome.bind_ok.mp changed
      exact .inr ⟨n, written⟩
  case least =>
    intro _ n b written
    by_cases lost : n = int64Min
    · exact .inr ⟨lost, fun here => (restores n).mp here lost⟩
    · exact .inl ⟨n, (UnpackedField.decode_encode written).mpr lost⟩

theorem rerenders (exact : Libraries.decimals.Exact) {l : Leaf} (typed : l.Typed) (full : l.Full)
    (held : l.content.InWidth) (shows : l.place.type.ShowsNumbers) : l.Rerenders := by
  obtain ⟨p, content⟩ := l
  have shows : p.type.ShowsNumbers := shows
  have shape := typed.of_kind
  obtain ⟨width, signed, kind⟩ | kind | kind := shows.kind
  · simp only [kind] at shape
    obtain ⟨v, rfl⟩ := shape
    exact rerenders_binary exact kind shows.digits held
  · simp only [kind] at shape
    obtain ⟨bytes, rfl⟩ := shape
    exact rerenders_packed exact kind shows.digits full
  · simp only [kind] at shape
    obtain ⟨bytes, rfl⟩ := shape
    exact rerenders_unpacked exact kind shows.digits full

end Leaf

namespace Value

/-- What is shown of a field of numbers is taken back by it, whatever was assigned and read, with
fractions that are read and printed exactly. -/
theorem shown_numbers_retaken [Libraries] (exact : Libraries.decimals.Exact) {t : FieldType}
    (shows : t.ShowsNumbers) (platform : Platform) (i j : Nat) (operations : List Operation) :
    ∃ l, (t.freshAt platform i j).after operations = .leaf l ∧ l.place = ⟨t, platform, i, j⟩ ∧
      l.Rerenders := by
  obtain ⟨formed, here⟩ := obeys_reached lasting_declared grows_declared t platform i j operations
  obtain ⟨full, -⟩ := obeys_reached Leaf.lasting_full.fieldLaw grows_fieldLaw t platform i j
    operations
  obtain ⟨held, -⟩ := obeys_reached Leaf.lasting_inWidth.fieldLaw grows_fieldLaw t platform i j
    operations
  cases reached : (t.freshAt platform i j).after operations with
  | node p elements =>
    rw [reached] at formed here
    cases here
    cases formed with
    | node shape _ => cases shape.1.symm.trans shows.flat
  | leaf l =>
    rw [reached] at formed full held here
    cases formed with
    | leaf typed =>
    cases full with
    | leaf full =>
    cases held with
    | leaf held =>
    have same : l.place.type = t := congrArg Place.type here
    exact ⟨l, rfl, here, Leaf.rerenders exact typed full held (same ▸ shows)⟩

namespace Sample

def balance : FieldType :=
  { FieldType.ofKind (.packed .number) "PA" with length := 4, fraction := 2 }

def debts : List Operation :=
  [⟨[], .parse (.ofCall false 0) (.ofList .big [0x00, 0x00, 0x00, 0x5D])⟩]

end Sample

theorem balance_retaken : Libraries.decimals.Exact ∧ Sample.balance.ShowsNumbers ∧
    ∃ l, (Sample.balance.freshAt .mainframe 0 0).after Sample.debts = .leaf l ∧
      l.stored? = some (-5) ∧ l.text = ['-', '0', '.', '0', '5'] ∧ l.Retakes (-5) := by
  have shows : Sample.balance.ShowsNumbers := ⟨.inr (.inl rfl), by decide⟩
  obtain ⟨l, reached, place, rerenders⟩ :=
    shown_numbers_retaken Decimal.fractions_exact shows .mainframe 0 0 Sample.debts
  have debt : (Sample.balance.freshAt .mainframe 0 0).after Sample.debts =
      .leaf ⟨⟨Sample.balance, .mainframe, 0, 0⟩, .packed .number [0x00, 0x00, 0x00, 0x5D]⟩ := rfl
  cases reached.symm.trans debt
  have counted : Sample.balance.CountsPacked := fun _ => show 7 < UInt32.size by decide
  refine ⟨Decimal.fractions_exact, shows, _, reached, rfl, by decide +kernel,
    rerenders.kept counted (-5) rfl ?_⟩
  exact Place.restores_of_ownSigns (p := ⟨Sample.balance, .mainframe, 0, 0⟩) rfl (by decide)

/-- The least number of 64 bits is taken by an unpacked field, which shows nothing then and does not
take that back. -/
theorem least_not_retaken :
    let p : Place := .top { FieldType.ofKind .unpacked "UA" with length := 19 } .openSystem
    let least : Leaf := ⟨p, .unpacked [0x39, 0x32, 0x32, 0x33, 0x33, 0x37, 0x32, 0x30, 0x33, 0x36,
      0x38, 0x35, 0x34, 0x37, 0x37, 0x35, 0x38, 0x30, 0x78]⟩
    (Leaf.fresh p).assign (.int Int64.minValue) = .ok least ∧ least.text = [] ∧
      ∃ fault, least.assign (.text least.text) = .error fault ∧ fault.code = 103 := by
  refine ⟨?_, rfl, _, rfl, rfl⟩
  refine Outcome.map_ok.mpr ⟨_, Outcome.map_ok.mpr ⟨_, ?_, rfl⟩, rfl⟩
  show UnpackedField.encode _ int64Min = _
  refine UnpackedField.encode_ok.mpr ⟨by decide, by decide, ?_⟩
  exact Decimal.Zoned.encode_ok.mpr
    ⟨Decimal.Zoned.lengthFor_le_iff.mpr ⟨by decide, by decide⟩, rfl⟩

end Value

end RecordCodec
