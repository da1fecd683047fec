import RecordCodec.Libraries.Standard
import RecordCodec.Proofs.Definition.StoreAlignment

/-!
The record length that a store announces and the bytes that it writes. For fields whose part of a
record has a known length the two are the same, call by call, except for large texts without bytes:
each is announced as its length header alone and written with a blank behind the header.
-/
namespace RecordCodec

/-- A field of a declared length, a text restricted to a range or a large text of variable
length. -/
inductive FieldType.Sized (t : FieldType) : Prop where
  | declared (declares : t.DeclaresLength)
  | ranged {size : TextSize} {unicode : Bool} {range : PartialRange}
      (kind : t.kind = .text size unicode) (restricted : t.partialRange = some range)
  | large (lob : t.isLob = true)

theorem FieldType.Sized.flat {t : FieldType} (sized : t.Sized) : t.kind.isStructure = false := by
  cases sized with
  | declared declares => exact declares.flat
  | ranged kind => rw [kind]; rfl
  | large lob =>
    unfold FieldType.isLob at lob
    split at lob
    · rename_i kind
      rw [kind]
      rfl
    · cases lob

namespace Leaf

variable {order : ByteOrder} {r : Request} {l : Leaf} {c : Chunk}

theorem length_store_declared (typed : l.Typed) (full : l.Full)
    (declares : l.place.type.DeclaresLength) (first : r.isFollowUp = false)
    (stored : l.store order r = .ok c) : c.bytes.length = l.place.type.length := by
  obtain ⟨p, content⟩ := l
  have fixed : p.type.length ≠ 0 := declares.fixed
  cases content with
  | superDescriptor bytes => exact absurd typed declares.underived
  | pseudo => cases stored
  | integer width signed v =>
    simp only [store, first] at stored
    cases stored
    exact (ByteOrder.length_encode ..).trans (declares.binary typed).symm
  | float wide bits =>
    simp only [store, first] at stored
    cases stored
    exact (ByteOrder.length_encode ..).trans (declares.float typed).symm
  | octets bytes =>
    simp only [store, first, storeShort_eq p bytes order, ByteOrder.frame_fixed fixed] at stored
    cases stored
    exact full fixed
  | packed meaning bytes | unpacked bytes =>
    simp only [store, first, storeDecimal_fixed fixed] at stored
    cases stored
    exact full fixed
  | text size unicode t =>
    have whole : p.type.partialRange = none := declares.whole typed
    have filled : t.bytes.length = p.type.length := full fixed whole
    have given : t.bytes.isEmpty = false := by
      rw [List.isEmpty_eq_false_iff, ← List.length_pos_iff, filled]
      exact Nat.pos_of_ne_zero fixed
    simp only [store, TextField.store, first, whole, TextField.isLob_fixed fixed, Bool.false_and,
      Bool.false_eq_true, if_false, TextField.storeWhole_eq, ByteOrder.frame_fixed fixed,
      TextField.payload, given] at stored
    cases stored
    exact filled

theorem length_wholeToken {p : Place} (fixed : p.type.length ≠ 0) (first : r.isFollowUp = false) :
    Token.totalLength (p.wholeToken? r).toList = p.type.length := by
  simp [Place.wholeToken?, first, Place.reservedLength, fixed, Token.totalLength]

theorem length_token_declared (typed : l.Typed) (declares : l.place.type.DeclaresLength)
    (first : r.isFollowUp = false) :
    Token.totalLength (l.token? r).toList = l.place.type.length := by
  obtain ⟨p, content⟩ := l
  have fixed : p.type.length ≠ 0 := declares.fixed
  cases content with
  | integer | float | octets | packed | unpacked | superDescriptor =>
    exact length_wholeToken fixed first
  | pseudo => exact absurd typed (by simp [Typed, Content.IsOf, declares.data])
  | text size unicode t =>
    have whole : p.type.partialRange = none := declares.whole typed
    rw [token?]
    dsimp only
    rw [TextField.token?, whole, TextField.isLob_fixed fixed]
    exact length_wholeToken fixed first

def isEmptyLob (l : Leaf) : Bool :=
  l.isPieced && l.bytes.isEmpty

/-- The blank that the first call writes for a large text without bytes. -/
def blanks (r : Request) (l : Leaf) : Nat :=
  if r.isFollowUp then 0 else if l.isEmptyLob then 1 else 0

theorem blanks_other (other : l.isPieced = false) : l.blanks r = 0 := by
  simp [blanks, isEmptyLob, other]

theorem length_store_pieced (writes : r.store = true) (typed : l.Typed)
    (counts : l.CountsPieces r) (pieced : l.isPieced = true) (stored : l.store order r = .ok c) :
    c.bytes.length = Token.totalLength (l.token? r).toList + l.blanks r := by
  by_cases long : r.chunk < l.bytes.length
  · have given : l.bytes.isEmpty = false := by
      rw [List.isEmpty_eq_false_iff, ← List.length_pos_iff]
      exact Nat.zero_lt_of_lt long
    rw [store_long typed pieced long] at stored
    cases stored
    rw [token_long writes typed pieced (counts.held pieced) (counts.start pieced long) long,
      TextField.storeChunk_eq, List.length_take, List.length_drop, blanks, isEmptyLob, given,
      Bool.and_false, if_neg Bool.false_ne_true, ite_self, Nat.add_zero]
    split
    · simp [Token.totalLength, Place.part]
    · rename_i past
      simp [Token.totalLength, Nat.sub_eq_zero_of_le (Nat.le_of_not_lt past)]
  · have short := Nat.le_of_not_lt long
    rw [store_short typed pieced short] at stored
    cases stored
    rw [token_short writes typed pieced short, blanks, isEmptyLob, pieced]
    cases r.isFollowUp with
    | true => simp [Chunk.empty, Token.totalLength]
    | false =>
      simp only [Bool.false_eq_true, if_false]
      change (order.frame 4 0 (TextField.payload l.bytes)).length = _
      rw [ByteOrder.frame_variable, List.length_append, ByteOrder.length_encode, TextField.payload]
      -- The token counts the header and the bytes; without bytes a blank stands in for them.
      cases l.bytes with
      | nil => rfl
      | cons b rest =>
        simp [Token.totalLength]
        omega

theorem length_store_ranged {range : PartialRange} {p : Place} {size : TextSize} {unicode : Bool}
    {t : TextContent} (restricted : p.type.partialRange = some range)
    (stored : store order r ⟨p, .text size unicode t⟩ = .ok c) :
    c.bytes.length = Token.totalLength (token? r ⟨p, .text size unicode t⟩).toList := by
  simp only [store, TextField.store, token?, TextField.token?, restricted] at stored ⊢
  by_cases later : r.isFollowUp = true
  · rw [if_pos later] at stored ⊢
    cases stored
    rfl
  · rw [if_neg later] at stored ⊢
    obtain ⟨length, same⟩ := Outcome.unless_ok.mp stored
    cases same
    exact not_not.mp length

/-- In a store a field of known length writes what its token announces, and a blank if it is a large
text without bytes. -/
theorem length_store (writes : r.store = true) (typed : l.Typed) (full : l.Full)
    (counts : l.CountsPieces r) (sized : l.place.type.Sized) (stored : l.store order r = .ok c) :
    c.bytes.length = Token.totalLength (l.token? r).toList + l.blanks r := by
  cases pieced : l.isPieced with
  | true => exact length_store_pieced writes typed counts pieced stored
  | false =>
    rw [blanks_other pieced, Nat.add_zero]
    cases sized with
    | @ranged size unicode range kind restricted =>
      obtain ⟨p, t, rfl⟩ := exists_text typed kind
      exact length_store_ranged restricted stored
    | large lob =>
      obtain ⟨p, unicode, t, rfl, -⟩ := exists_lob typed lob
      obtain ⟨range, restricted⟩ : ∃ range, p.type.partialRange = some range := by
        rw [isPieced, lob, Bool.true_and, Option.isNone_eq_false_iff] at pieced
        exact Option.isSome_iff_exists.mp pieced
      exact length_store_ranged restricted stored
    | declared declares =>
      cases call : r.isFollowUp with
      | true =>
        rw [token_other typed pieced call, store_later typed pieced call stored]
        rfl
      | false =>
        rw [length_store_declared typed full declares call stored,
          length_token_declared typed declares call]

end Leaf

namespace StoredField

variable {order : ByteOrder} {r : Request} {f : StoredField} {fields : List StoredField}

theorem length_chunk (writes : r.store = true) (typed : f.leaf.Typed) (full : f.leaf.Full)
    (counts : f.CountsPieces r) (sized : f.leaf.place.type.Sized) {c : Chunk}
    (stored : f.chunk order r = .ok c) :
    c.bytes.length = Token.totalLength (f.tokens r) + f.leaf.blanks r := by
  rw [chunk] at stored
  rw [tokens]
  by_cases skipped : (f.repeated && r.isFollowUp) = true
  · rw [if_pos skipped] at stored ⊢
    cases stored
    simp [Leaf.blanks, (Bool.and_eq_true_iff.mp skipped).2, Chunk.empty, Token.totalLength]
  · rw [if_neg skipped] at stored ⊢
    exact Leaf.length_store writes typed full (counts (Bool.eq_false_iff.mpr skipped)) sized stored

theorem length_storeAll (writes : r.store = true)
    (each : ∀ f ∈ fields,
      f.leaf.Typed ∧ f.leaf.Full ∧ f.CountsPieces r ∧ f.leaf.place.type.Sized) {c : Chunk}
    (stored : storeAll order r fields = .ok c) :
    c.bytes.length = Token.totalLength (fields.flatMap (tokens r)) +
      if r.isFollowUp then 0 else fields.countP fun f => f.leaf.isEmptyLob := by
  induction fields generalizing c with
  | nil =>
    cases stored
    simp [Chunk.empty, Token.totalLength]
  | cons f rest ih =>
    obtain ⟨⟨typed, full, counts, sized⟩, later⟩ := List.forall_mem_cons.mp each
    obtain ⟨first, here, stored⟩ := Outcome.bind_ok.mp stored
    obtain ⟨others, behind, stored⟩ := Outcome.bind_ok.mp stored
    cases stored
    rw [Chunk.append, List.length_append, length_chunk writes typed full counts sized here,
      ih later behind, List.flatMap_cons, Token.totalLength_append, List.countP_cons, Leaf.blanks]
    split <;> omega

end StoredField

namespace Definition

/-- The record of a store has the length of its tokens, and in the first call a blank more for each
large text without bytes. That length is announced as long as it is a word. -/
theorem store_length [Libraries] {d : Definition} (reached : d.Reached)
    (sized : ∀ t ∈ FieldType.walkAll d.types, t.kind.isStructure = false → t.Sized)
    {r : Request} (counts : d.CountsChunks r) (writes : r.store = true) {c : Chunk}
    (stored : d.store r = .ok c) :
    c.bytes.length = Token.totalLength (d.tokens r) +
        (if r.isFollowUp then 0 else d.storedFields.countP fun f => f.leaf.isEmptyLob) ∧
      (c.bytes.length ≤ maxLength → (d.format r).2 +
        (if r.isFollowUp then 0 else d.storedFields.countP fun f => f.leaf.isEmptyLob) =
          c.bytes.length) ∧
      ((r.isFollowUp = true ∨ ∀ f ∈ d.storedFields, f.leaf.isEmptyLob = false) →
        c.bytes.length ≤ maxLength → (d.format r).2 = c.bytes.length) := by
  have formed := reached.wellFormed
  have each : ∀ f ∈ d.storedFields,
      f.leaf.Typed ∧ f.leaf.Full ∧ f.CountsPieces r ∧ f.leaf.place.type.Sized := by
    intro f inside
    have typed := typed_storedFields formed f inside
    obtain ⟨t, field, -, deep, -⟩ := walk_of_storedFields formed inside
    exact ⟨typed, full_storedFields reached inside,
      countsPieces_storedFields reached counts inside,
      sized _ (FieldType.mem_walkAll.mpr ⟨t, field, deep⟩) typed.flat⟩
  rw [store_eq writes] at stored
  have length := StoredField.length_storeAll writes each stored
  rw [← tokens_eq writes] at length
  have announced (fits : c.bytes.length ≤ maxLength) :
      (d.format r).2 = Token.totalLength (d.tokens r) :=
    format_length ((Nat.le_add_right _ _).trans (length ▸ fits))
  refine ⟨length, fun fits => by rw [announced fits, length], fun given fits => ?_⟩
  have none : (if r.isFollowUp = true then 0
      else d.storedFields.countP fun f => f.leaf.isEmptyLob) = 0 := by
    rcases given with later | filled
    · exact if_pos later
    · rw [List.countP_eq_zero.mpr fun f inside => by simp [filled f inside], ite_self]
  rw [announced fits, length, none, Nat.add_zero]

namespace Sample

def restricted : FieldType :=
  (FieldType.ofKind (.text .short false) "AB").withPartial (.ofBounds 1 2)

/-- A decimal in a group, numbers and their multiples in a periodic group, a restricted text and a
large one. -/
def sizedTypes : List FieldType :=
  [.group "GA" [{ FieldType.ofKind (.packed .number) "AA" with length := 3 }],
    .periodic "PA" [.ofKind (.float true) "FA", .multiple (.ofKind (.binary .two true) "MA")],
    restricted, .ofKind (.text .large false) "LA"]

theorem sized_sizedTypes : ∀ t ∈ FieldType.walkAll sizedTypes,
    t.kind.isStructure = false → t.Sized := by
  have declared : ∀ {t : FieldType}, t.DeclaresLength → t.kind.isStructure = false → t.Sized :=
    fun declares _ => .declared declares
  refine List.forall_mem_cons.mpr ⟨nofun, List.forall_mem_cons.mpr
    ⟨declared (show 0 < 3 by decide), List.forall_mem_cons.mpr ⟨nofun, List.forall_mem_cons.mpr
    ⟨declared (show 8 = 8 from rfl), List.forall_mem_cons.mpr ⟨nofun, List.forall_mem_cons.mpr
    ⟨declared (show 2 = 2 from rfl), List.forall_mem_cons.mpr
    ⟨fun _ => .ranged rfl rfl, List.forall_mem_cons.mpr ⟨fun _ => .large rfl, nofun⟩⟩⟩⟩⟩⟩⟩⟩

end Sample

/-- One occurrence, with one value of its multiple-value field, and two of three bytes of the large
text. -/
theorem sample_store_length : ∃ d : Definition, ∃ c, d.Reached ∧ d.types = Sample.sizedTypes ∧
    d.store Sample.chunked = .ok c ∧
    (d.format Sample.chunked).1 = "AA,3,P,FA1,8,G,MA1(1),2,F,AB(1,2),LA(1,2)." ∧
    (d.format Sample.chunked).2 = c.bytes.length ∧ c.bytes.length = 17 := by
  obtain ⟨d, reached, types, filled, text, c, stored, length⟩ : ∃ d : Definition, d.Reached ∧
      d.types = Sample.sizedTypes ∧
      (d.storedFields.all fun f => !f.leaf.isEmptyLob) = true ∧
      (d.format Sample.chunked).1 = "AA,3,P,FA1,8,G,MA1(1),2,F,AB(1,2),LA(1,2)." ∧
      ∃ c, d.store Sample.chunked = .ok c ∧ c.bytes.length = 17 :=
    ⟨_, .assigned (.assigned (.changed (.changed (.new (rfl : ofTypes .openSystem
      Sample.sizedTypes = .ok _)) "PA" [] (.reach 1) rfl) "MA" [] (.push (.int 7)) rfl) "AB"
      (.bytes [1, 2]) rfl) "LA" (.bytes [1, 2, 3]) rfl, rfl, rfl, by decide +kernel, _, rfl, rfl⟩
  obtain ⟨-, -, equal⟩ := store_length (r := Sample.chunked) reached
    (types ▸ Sample.sized_sizedTypes) (fun _ _ _ _ _ => by decide) rfl stored
  have fits : c.bytes.length ≤ maxLength := by
    rw [length]
    decide
  refine ⟨d, c, reached, types, stored, text, equal (.inr fun f inside => ?_) fits, length⟩
  simpa using List.all_eq_true.mp filled f inside

theorem empty_lob_misannounced : ∃ d : Definition, d.Reached ∧
    (∀ t ∈ d.types, t.Sized) ∧ d.format (.ofCall true 0) = ("LB,0,A.", 4) ∧
    d.store (.ofCall true 0) = .ok (.whole [0, 0, 0, 5, 0x20]) :=
  ⟨_, .new (rfl : ofTypes .openSystem [.ofKind (.text .large false) "LB"] = .ok _),
    List.forall_mem_singleton.mpr (.large rfl), by decide +kernel, rfl⟩

end Definition

end RecordCodec
