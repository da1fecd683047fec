import RecordCodec.Proofs.Value.Layout
import RecordCodec.Proofs.Value.Pieces

/-!
One occurrence of a multiple-value field that is asked for by number, next to a plain field of the
type of its elements. Both take the same bytes from a record. The record bytes that they reserve are
those that the element declares, and a plain field of variable length reserves a length of its own.
-/
namespace RecordCodec

/-! ### Reading -/

namespace TextField

theorem readWhole_congr {p p' : Place} (length : p'.type.length = p.type.length)
    (size : TextSize) : readWhole p' size = readWhole p size := by
  funext q
  rw [readWhole, readWhole, readLength, readLength, FieldType.isVariable, FieldType.isVariable,
    length]

theorem paired_readStart (r : Request) (c c' : TextContent) (q : ByteQueue) :
    Outcome.paired (readStart r c' q) = Outcome.paired (readStart r c q) := by
  unfold readStart
  cases q.takeNat 4 with
  | error shortage => rfl
  | ok counted =>
    obtain ⟨announced, behind⟩ := counted
    dsimp only
    cases behind.take r.partialSize <;> rfl

end TextField

namespace Leaf

theorem readShort_congr {p p' : Place} (length : p'.type.length = p.type.length) :
    readShort p' = readShort p := by
  funext q
  rw [readShort, readShort, FieldType.isVariable, FieldType.isVariable, length]

theorem paired_parse_lob {p : Place} {size : TextSize} {unicode : Bool} {c : TextContent}
    {r : Request} (first : r.isFollowUp = false) {q : ByteQueue}
    (unrestricted : p.type.partialRange = none) (large : TextField.isLob p size = true) :
    Outcome.paired (parse r q ⟨p, .text size unicode c⟩) =
      (Outcome.paired (TextField.readStart r c q)).map fun (c', progress) =>
        (⟨p, .text size unicode c'⟩, progress) := by
  simp only [parse, TextField.parse, first, unrestricted, large, Bool.false_eq_true, if_false,
    if_true]
  rcases TextField.readStart r c q with ⟨c', _ | progress⟩ <;> rfl

theorem readContent_congr {l m : Leaf} (typed : l.Typed) (typed' : m.Typed)
    (kind : m.place.type.kind = l.place.type.kind)
    (length : m.place.type.length = l.place.type.length)
    (moved : ∀ size unicode, l.place.type.kind ≠ .text size unicode) :
    m.readContent = l.readContent := by
  funext q
  obtain ⟨p, before⟩ := l
  obtain ⟨p', before'⟩ := m
  have source := Content.IsOf.of_kind typed
  have target := Content.IsOf.of_kind typed'
  rw [kind] at target
  dsimp only at length
  cases same : p.type.kind with
  | text size unicode => exact absurd same (moved size unicode)
  | binary | octets | float | packed | unpacked | superDescriptor =>
    simp only [same] at source target
    obtain ⟨_, rfl⟩ := source
    obtain ⟨_, rfl⟩ := target
    simp only [readContent, readShort_congr length, length]
  | pseudo | group | periodicGroup | multiple =>
    simp only [same] at source target
    subst source
    subst target
    rfl

/-- A first read of a field that is not restricted to a range depends on its kind and its length
only, and fills it with the same content whatever it held. -/
theorem paired_parse_congr {l m : Leaf} (typed : l.Typed) (typed' : m.Typed)
    (kind : m.place.type.kind = l.place.type.kind)
    (length : m.place.type.length = l.place.type.length)
    (whole : l.place.type.partialRange = none) (whole' : m.place.type.partialRange = none)
    {r : Request} (first : r.isFollowUp = false) (q : ByteQueue) :
    Outcome.paired (m.parse r q) = (Outcome.paired (l.parse r q)).map fun (l', progress) =>
      ({ m with content := l'.content }, progress) := by
  by_cases text : ∃ size unicode, l.place.type.kind = .text size unicode
  · obtain ⟨size, unicode, same⟩ := text
    obtain ⟨p, c, rfl⟩ := exists_text typed same
    obtain ⟨p', c', rfl⟩ := exists_text typed' (kind.trans same)
    dsimp only at length whole whole'
    have pieced : TextField.isLob p' size = TextField.isLob p size := by
      rw [TextField.isLob, TextField.isLob, length]
    cases large : TextField.isLob p size with
    | true =>
      rw [paired_parse_lob first whole large, paired_parse_lob first whole' (pieced.trans large),
        TextField.paired_readStart r c c']
      cases Outcome.paired (TextField.readStart r c q) <;> rfl
    | false =>
      rw [paired_parse_text first whole large, paired_parse_text first whole' (pieced.trans large),
        TextField.readWhole_congr length]
      cases TextField.readWhole p size q <;> rfl
  · have unmoved : ∀ {m : Leaf}, m.Typed → m.place.type.kind = l.place.type.kind →
        ∀ size unicode c, m.content ≠ .text size unicode c := by
      intro m typed kind size unicode c held
      rw [Typed, held] at typed
      exact text ⟨size, unicode, kind.symm.trans typed⟩
    rw [paired_parse first (unmoved typed rfl), paired_parse first (unmoved typed' kind),
      readContent_congr typed typed' kind length
        fun size unicode same => text ⟨size, unicode, same⟩]
    cases l.readContent q <;> rfl

end Leaf

namespace Place

def elementPlace (p : Place) (element : FieldType) (i : UInt32) : Place :=
  ⟨element.withFlag .multipleElement, p.platform, p.periodicIndex, i.toNat⟩

section Single

variable {element : FieldType} {i : UInt32} {p : Place}
  (asked : p.type = (FieldType.multiple element).withOccurrence (.index i)) {r : Request}
include asked

/-- An occurrence that is asked for by number is read as a field, without a count in front. -/
theorem readRepeated_single (flat : element.kind.isStructure = false) (q : ByteQueue) :
    p.readRepeated r q =
      (Outcome.paired ((Leaf.fresh (p.elementPlace element i)).parse r q)).map
        fun (l, progress) => ([[.leaf l]], ⟨progress.queue, progress.followUp⟩) := by
  have one : p.readRepeated r q = readOccurrences (fun k q => FieldType.readMembers r p.platform
      p.periodicIndex ((Occurrence.index i).number k) q [element.withFlag .multipleElement])
      1 0 q := by
    unfold readRepeated readElements occurrenceCount elementIndexes
    rw [asked]
    rfl
  have flat : (element.withFlag .multipleElement).kind.isStructure = false := flat
  have number : (Occurrence.index i).number 0 = i.toNat := Occurrence.number_zero _
  rw [one, readOccurrences, number, FieldType.readMembers, FieldType.readAt_leaf flat,
    elementPlace]
  rcases (Leaf.fresh ⟨element.withFlag .multipleElement, p.platform, p.periodicIndex,
    i.toNat⟩).parse r q with ⟨l, fault | progress⟩
  · rfl
  · cases progress.followUp <;> rfl

theorem length_repeatedToken_single :
    (p.repeatedToken r).length = element.length := by
  rw [repeatedToken, asked]
  rfl

end Single

end Place

/-! ### Reserving -/

/-- The record bytes that the first call of a read reserves for a plain field. Those of a large text
are added up in a word of four bytes. -/
def FieldType.readReserve (r : Request) (t : FieldType) : Nat :=
  if t.isLob then (4 + r.partialSize) % UInt32.size
  else if t.length = 0 then t.kind.variableReadLength else t.length

theorem FieldKind.variableReadLength_pos (kind : FieldKind) : 0 < kind.variableReadLength := by
  cases kind with
  | text size unicode => cases size <;> exact Nat.succ_pos _
  | binary | octets | float | packed | unpacked | group | periodicGroup | multiple
  | superDescriptor | pseudo => exact Nat.succ_pos _

theorem FieldKind.variableReadLength_lt (kind : FieldKind) :
    kind.variableReadLength < UInt32.size := by
  unfold variableReadLength
  split <;> decide

theorem FieldType.length_of_isLob {t : FieldType} (lob : t.isLob = true) : t.length = 0 := by
  unfold isLob at lob
  split at lob
  · exact eq_of_beq lob
  · cases lob

/-- A field of known length reserves it. One of variable length reserves some bytes, unless the word
for those of a large text wraps around to none. -/
theorem FieldType.readReserve_eq_length_iff (r : Request) (t : FieldType) :
    t.readReserve r = t.length ↔
      t.length ≠ 0 ∨ t.isLob = true ∧ (4 + r.partialSize) % UInt32.size = 0 := by
  have positive := t.kind.variableReadLength_pos
  unfold readReserve
  cases lob : t.isLob with
  | true =>
    have varies := length_of_isLob lob
    simp [varies]
  | false =>
    by_cases varies : t.length = 0
    · simp [varies, positive.ne']
    · simp [varies]

theorem Leaf.word_token_first {l : Leaf} (typed : l.Typed)
    (data : l.place.type.kind.isPseudo = false) (whole : l.place.type.partialRange = none)
    (held : l.place.type.length < UInt32.size) {r : Request} (reads : r.store = false)
    (first : r.isFollowUp = false) :
    Token.word (l.token? r).toList = l.place.type.readReserve r := by
  have plain : l.place.type.isLob = false → Token.word (l.place.wholeToken? r).toList =
      l.place.type.readReserve r := fun other => by
    have room : l.place.reservedLength < UInt32.size := by
      unfold Place.reservedLength
      split
      · exact l.place.type.kind.variableReadLength_lt
      · exact held
    simpa [Place.wholeToken?, first, FieldType.readReserve, other, Token.word, Token.totalLength,
      Place.reservedLength] using Nat.mod_eq_of_lt room
  obtain ⟨p, content⟩ := l
  cases content with
  | text size unicode c =>
    have large := TextField.isLob_of_kind typed
    rw [token?]
    dsimp only at plain whole ⊢
    rw [TextField.token?, whole, large]
    cases lob : p.type.isLob with
    | false => exact plain lob
    | true =>
      simp [reads, TextField.readToken?, first, FieldType.readReserve, lob, Token.word,
        Token.totalLength]
  | pseudo =>
    have kind : p.type.kind.isPseudo = true := typed
    rw [kind] at data
    cases data
  | integer | octets | float | packed | unpacked | superDescriptor =>
    have kind : p.type.kind = _ := typed
    exact plain (by rw [FieldType.isLob, kind])

namespace Value

/-- One occurrence of a multiple-value field that is asked for by number is read like a plain field
of its element, but the first call reserves the declared length for it where it reserves a length of
its own for the plain field. The two are the same if the element has a fixed length, else only for
large texts of so many bytes that their word is zero. -/
theorem single_occurrence {element : FieldType} (flat : element.kind.isStructure = false)
    (data : element.kind.isPseudo = false) (whole : element.partialRange = none)
    (held : element.length < UInt32.size) {i : UInt32} {p : Place}
    (asked : p.type = (FieldType.multiple element).withOccurrence (.index i))
    (elements : List (List Value)) {l : Leaf} (typed : l.Typed) (plain : l.place.type = element)
    {r : Request} (reads : r.store = false) (first : r.isFollowUp = false) :
    Token.word ((node p elements).tokens r) = element.length ∧
      Token.word ((leaf l).tokens r) = element.readReserve r ∧
      (Token.word ((node p elements).tokens r) = Token.word ((leaf l).tokens r) ↔
        element.length ≠ 0 ∨ element.isLob = true ∧ (4 + r.partialSize) % UInt32.size = 0) ∧
      ∀ q, Outcome.paired ((node p elements).parse r q) =
        (Outcome.paired (l.parse r q)).map fun (l', progress) =>
          (node p [[leaf ⟨p.elementPlace element i, l'.content⟩]],
            ⟨progress.queue, true, progress.followUp⟩) := by
  have repeated : p.type.kind.isRepeated = true := by
    rw [asked]
    rfl
  have single : Token.word ((node p elements).tokens r) = element.length := by
    have token : (node p elements).tokens r = [p.repeatedToken r] := by
      rw [tokens, repeated, first, reads]
      rfl
    rw [token, Token.word, Token.totalLength, List.foldr_cons, List.foldr_nil, Nat.add_zero,
      Place.length_repeatedToken_single asked, Nat.mod_eq_of_lt held]
  have whole' : Token.word ((leaf l).tokens r) = element.readReserve r := by
    rw [tokens, ← plain]
    exact Leaf.word_token_first typed (plain ▸ data) (plain ▸ whole) (plain ▸ held) reads first
  refine ⟨single, whole', ?_, fun q => ?_⟩
  · rw [single, whole', eq_comm]
    exact element.readReserve_eq_length_iff r
  · have fresh : (Leaf.fresh (p.elementPlace element i)).Typed := Leaf.typed_fresh flat
    rw [paired_parse_repeated repeated first, Place.readRepeated_single asked flat,
      Leaf.paired_parse_congr typed fresh (by rw [plain]; rfl) (by rw [plain]; rfl)
        (plain ▸ whole) whole first]
    rcases Outcome.paired (l.parse r q) with _ | ⟨l', progress⟩ <;> rfl

namespace Sample

/-- The second occurrence of a field of `length` bytes of text; variable ones if there are none. -/
def secondText (length : Nat) : FieldType :=
  (FieldType.multiple { FieldType.ofKind (.text .short false) "MA" with length }).withOccurrence
    (.index 2)

def plainText (length : Nat) : Leaf :=
  .fresh (.top { FieldType.ofKind (.text .short false) "MA" with length } .openSystem)

end Sample

theorem fixed_single_occurrence :
    Token.word ((node (.top (Sample.secondText 3) .openSystem) []).tokens (.ofCall false 0)) =
      Token.word ((leaf (Sample.plainText 3)).tokens (.ofCall false 0)) := by
  have typed : (Sample.plainText 3).Typed := rfl
  obtain ⟨-, -, same, -⟩ :=
    single_occurrence rfl rfl rfl (show 3 < UInt32.size by decide)
      (rfl : (Place.top (Sample.secondText 3) .openSystem).type = _) [] typed rfl
      (rfl : (Request.ofCall false 0).store = false) rfl
  exact same.mpr (.inl (by decide))

/-- Of a text of variable length the occurrence reserves nothing, the plain field 253 bytes. -/
theorem variable_single_occurrence :
    Token.word ((node (.top (Sample.secondText 0) .openSystem) []).tokens (.ofCall false 0)) = 0 ∧
    Token.word ((leaf (Sample.plainText 0)).tokens (.ofCall false 0)) = 253 :=
  ⟨rfl, rfl⟩

end Value

end RecordCodec
