import RecordCodec.Libraries.Standard
import RecordCodec.Proofs.Definition.ChunkedStore
import RecordCodec.Proofs.Definition.Built
import RecordCodec.Proofs.Value.Fixed

/-!
Format buffer and record of a store side by side. Two traversals write them; in every call the
fields that get a token are those that write bytes, so that one list of fields accounts for both.
-/
namespace RecordCodec

theorem Place.closed_tokenText (p : Place) : Token.Closed p.tokenText :=
  (Token.closed_singleton p.type.kind.formatChar_ne_comma).append
    s!"{p.shortName}{p.indexText},{p.type.length},"

theorem Place.closed_partText (p : Place) (first length : Nat) :
    Token.Closed (p.partText first length) :=
  (show Token.Closed ")" by decide).append s!"{p.shortName}{p.indexText}({first},{length}"

theorem ByteOrder.frame_ne_nil {order : ByteOrder} {header length : Nat} {payload : List UInt8}
    (counted : 0 < header) (given : length ≠ 0 → payload ≠ []) :
    order.frame header length payload ≠ [] := by
  by_cases fixed : length = 0
  · subst fixed
    rw [frame_variable]
    apply List.append_ne_nil_of_left_ne_nil
    rw [← List.length_pos_iff, length_encode]
    exact counted
  · rw [frame_fixed fixed]
    exact given fixed

theorem TextField.payload_ne_nil (bytes : List UInt8) : payload bytes ≠ [] := by
  cases bytes <;> simp [payload]

theorem TextField.storeChunk_ne_nil_iff (r : Request) (bytes : List UInt8) :
    (storeChunk r bytes).bytes ≠ [] ↔ r.call * r.chunk < bytes.length := by
  have pos := r.chunk_pos
  rw [storeChunk_eq, ← List.length_pos_iff, List.length_take, List.length_drop]
  omega

namespace Leaf

variable {order : ByteOrder} {r : Request} {l : Leaf} {c : Chunk}

theorem storeShort_ne_nil {p : Place} {payload : List UInt8}
    (filled : p.type.length ≠ 0 → payload.length = p.type.length) :
    (storeShort p payload).bytes ≠ [] := by
  rw [storeShort_eq p payload .big]
  refine ByteOrder.frame_ne_nil Nat.one_pos fun fixed => ?_
  rw [← List.length_pos_iff, filled fixed]
  exact Nat.pos_of_ne_zero fixed

theorem storeDecimal_ne_nil {p : Place} {bytes : List UInt8} (ifEmpty : List UInt8)
    (filled : p.type.length ≠ 0 → bytes.length = p.type.length) :
    (storeDecimal p bytes ifEmpty).bytes ≠ [] := by
  refine storeShort_ne_nil fun fixed => ?_
  rw [FieldType.isVariable_fixed fixed]
  exact filled fixed

theorem store_first_ne_nil (typed : l.Typed) (full : l.Full) (other : l.isPieced = false)
    (data : l.place.type.kind ≠ .superDescriptor) (covers : l.place.type.Covers)
    (first : r.isFollowUp = false) (stored : l.store order r = .ok c) : c.bytes ≠ [] := by
  obtain ⟨p, content⟩ := l
  cases content with
  | superDescriptor bytes => exact absurd typed data
  | pseudo => cases stored
  | integer width signed v =>
    simp only [store, first] at stored
    cases stored
    rw [← List.length_pos_iff]
    cases width <;> simp [Chunk.whole, IntegerField.encode, BinaryWidth.bytes]
  | float wide bits =>
    simp only [store, first] at stored
    cases stored
    rw [← List.length_pos_iff]
    cases wide <;> simp [Chunk.whole, FloatField.encode, FloatField.width]
  | octets bytes =>
    simp only [store, first] at stored
    cases stored
    exact storeShort_ne_nil full
  | packed meaning bytes | unpacked bytes =>
    simp only [store, first] at stored
    cases stored
    exact storeDecimal_ne_nil _ full
  | text size unicode t =>
    simp only [store, TextField.store, first, Bool.false_eq_true, if_false] at stored
    obtain ⟨range, restricted⟩ | ⟨whole, small⟩ := range_or_small typed other
    · simp only [restricted] at stored
      split at stored
      · cases stored
      · rename_i length
        cases stored
        rw [← List.length_pos_iff]
        exact Nat.lt_of_lt_of_eq (covers range restricted) (not_not.mp length).symm
    · simp only [whole, small, Bool.false_and, Bool.false_eq_true, if_false] at stored
      cases stored
      show TextField.storeWhole order p size t.bytes ≠ []
      rw [TextField.storeWhole_eq]
      exact ByteOrder.frame_ne_nil (by cases size <;> decide) fun _ => TextField.payload_ne_nil _

theorem token_first (typed : l.Typed) (other : l.isPieced = false) (first : r.isFollowUp = false)
    (given : l.content ≠ .pseudo) : ∃ t, l.token? r = some t := by
  obtain ⟨p, content⟩ := l
  cases content with
  | pseudo => exact absurd rfl given
  | integer | octets | float | packed | unpacked | superDescriptor =>
    simp [token?, Place.wholeToken?, first]
  | text size unicode t =>
    obtain ⟨range, restricted⟩ | ⟨whole, small⟩ := range_or_small typed other
    · simp [token?, TextField.token?, restricted, first]
    · simp [token?, TextField.token?, whole, small, Place.wholeToken?, first]

theorem store_later (typed : l.Typed) (other : l.isPieced = false) (later : r.isFollowUp = true)
    (stored : l.store order r = .ok c) : c = .empty := by
  obtain ⟨p, content⟩ := l
  cases content with
  | pseudo => cases stored
  | integer | octets | float | packed | unpacked | superDescriptor =>
    simp only [store, later, if_true] at stored
    cases stored
    rfl
  | text size unicode t =>
    simp only [store, TextField.store, later, if_true] at stored
    obtain ⟨range, restricted⟩ | ⟨whole, small⟩ := range_or_small typed other
    · simp only [restricted] at stored
      cases stored
      rfl
    · simp only [whole, small, Bool.false_and, Bool.false_eq_true, if_false] at stored
      cases stored
      rfl

/-- Words count the bytes of a text that moves in pieces, and those up to where a call starts. -/
structure CountsPieces (r : Request) (l : Leaf) : Prop where
  held : l.isPieced = true → l.bytes.length < UInt32.size
  start : l.isPieced = true → r.chunk < l.bytes.length → r.call * r.chunk + 1 < UInt32.size

theorem token_iff_bytes (writes : r.store = true) (typed : l.Typed) (full : l.Full)
    (counts : l.CountsPieces r) (data : l.place.type.kind ≠ .superDescriptor)
    (covers : l.place.type.Covers) (stored : l.store order r = .ok c) :
    (l.token? r).isSome = true ↔ c.bytes ≠ [] := by
  cases pieced : l.isPieced with
  | true =>
    by_cases long : r.chunk < l.bytes.length
    -- a long text has a piece for each call that starts in front of its end
    · rw [store_long typed pieced long] at stored
      cases stored
      rw [token_long writes typed pieced (counts.held pieced) (counts.start pieced long) long,
        TextField.storeChunk_ne_nil_iff]
      by_cases more : r.call * r.chunk < l.bytes.length <;> simp [more]
    · have short := Nat.le_of_not_lt long
      rw [store_short typed pieced short] at stored
      cases stored
      rw [token_short writes typed pieced short]
      cases r.isFollowUp with
      | true => simp [Chunk.empty]
      | false =>
        have given : order.frame 4 0 (TextField.payload l.bytes) ≠ [] :=
          ByteOrder.frame_ne_nil (by decide) fun _ => TextField.payload_ne_nil l.bytes
        simpa [Chunk.whole] using given
  -- every other field goes with the first call, as a whole
  | false =>
    cases call : r.isFollowUp with
    | true =>
      rw [token_other typed pieced call, store_later typed pieced call stored]
      simp [Chunk.empty]
    | false =>
      have given : l.content ≠ .pseudo := by
        intro pseudo
        obtain ⟨p, content⟩ := l
        cases pseudo
        cases stored
      obtain ⟨t, token⟩ := token_first typed pieced call given
      rw [token]
      exact iff_of_true rfl (store_first_ne_nil typed full pieced data covers call stored)

theorem closed_wholeToken {p : Place} {t : Token} (h : p.wholeToken? r = some t) :
    Token.Closed t.text := by
  rw [Place.wholeToken?] at h
  split at h
  · cases h
  · cases h
    exact p.closed_tokenText

theorem closed_token (writes : r.store = true) {t : Token} (h : l.token? r = some t) :
    Token.Closed t.text := by
  obtain ⟨p, content⟩ := l
  cases content with
  | pseudo => cases h
  | integer | octets | float | packed | unpacked | superDescriptor => exact closed_wholeToken h
  | text size unicode c =>
    simp only [token?, TextField.token?, writes, if_true] at h
    split at h
    · split at h
      · cases h
      · cases h
        exact p.closed_partText _ _
    · split at h
      · exact closed_wholeToken h
      · rw [TextField.storeToken?] at h
        dsimp only at h
        split at h <;> split at h <;> cases h
        · exact p.closed_tokenText
        · exact p.closed_partText _ _

end Leaf

namespace Value

mutual

theorem written_storedFields {v : Value} (written : v.type.isReadOnly = false) (repeated : Bool) :
    ∀ f ∈ v.storedFields repeated, f.leaf.place.type.isReadOnly = false := by
  match v with
  | leaf l => exact List.forall_mem_singleton.mpr written
  | node p elements => exact written_storedInElements elements _

theorem written_storedInElements (elements : List (List Value)) (repeated : Bool) :
    ∀ f ∈ storedInElements repeated elements, f.leaf.place.type.isReadOnly = false := by
  match elements with
  | [] => exact fun f none => by cases none
  | element :: rest =>
    exact List.forall_mem_append.mpr ⟨written_storedInMembers element repeated,
      written_storedInElements rest repeated⟩

theorem written_storedInMembers (members : List Value) (repeated : Bool) :
    ∀ f ∈ storedInMembers repeated members, f.leaf.place.type.isReadOnly = false := by
  match members with
  | [] => exact fun f none => by cases none
  | v :: rest =>
    rw [storedInMembers]
    split
    · exact written_storedInMembers rest repeated
    · rename_i written
      exact List.forall_mem_append.mpr
        ⟨written_storedFields (Bool.eq_false_iff.mpr written) repeated,
          written_storedInMembers rest repeated⟩

end

def ofStored (f : StoredField) : Value :=
  leaf f.leaf

mutual

theorem sublist_storedFields (v : Value) (repeated : Bool) :
    ((v.storedFields repeated).map ofStored).Sublist v.walk := by
  match v with
  | leaf l => exact .refl _
  | node p elements => exact (sublist_storedInElements elements _).cons _

theorem sublist_storedInElements (elements : List (List Value)) (repeated : Bool) :
    ((storedInElements repeated elements).map ofStored).Sublist (walkElements elements) := by
  match elements with
  | [] => exact .refl _
  | element :: rest =>
    rw [storedInElements, List.map_append, walkElements]
    exact (sublist_storedInMembers element repeated).append (sublist_storedInElements rest repeated)

theorem sublist_storedInMembers (members : List Value) (repeated : Bool) :
    ((storedInMembers repeated members).map ofStored).Sublist (walkMembers members) := by
  match members with
  | [] => exact .refl _
  | v :: rest =>
    rw [storedInMembers, walkMembers]
    split
    · exact (sublist_storedInMembers rest repeated).trans (List.sublist_append_right _ _)
    · rw [List.map_append]
      exact (sublist_storedFields v repeated).append (sublist_storedInMembers rest repeated)

end

end Value

/-- What a field adds to a store: its token in the format buffer and its bytes in the record. -/
structure Emission where
  field : Leaf
  token : String
  bytes : List UInt8

namespace StoredField

variable {order : ByteOrder} {r : Request} {f : StoredField} {fields : List StoredField}

def token? (r : Request) (f : StoredField) : Option Token :=
  if f.repeated && r.isFollowUp then none else f.leaf.token? r

theorem tokens_eq_toList (r : Request) (f : StoredField) : f.tokens r = (f.token? r).toList := by
  rw [tokens, token?]
  split <;> rfl

theorem leaf_of_token {t : Token} (h : f.token? r = some t) : f.leaf.token? r = some t ∧
    ∀ order : ByteOrder, f.chunk order r = f.leaf.store order r := by
  rw [token?] at h
  split at h
  · cases h
  · rename_i takesPart
    exact ⟨h, fun order => if_neg takesPart⟩

def emission? (order : ByteOrder) (r : Request) (f : StoredField) : Option Emission :=
  (f.token? r).map fun t => ⟨f.leaf, t.text, f.bytes order r⟩

/-- Words count the pieces of a field in every call in which it takes part. -/
def CountsPieces (r : Request) (f : StoredField) : Prop :=
  (f.repeated && r.isFollowUp) = false → f.leaf.CountsPieces r

theorem token_iff_bytes (writes : r.store = true) (typed : f.leaf.Typed) (full : f.leaf.Full)
    (counts : f.CountsPieces r) (data : f.leaf.place.type.kind ≠ .superDescriptor)
    (covers : f.leaf.place.type.Covers) {c : Chunk} (stored : f.chunk order r = .ok c) :
    (f.token? r).isSome = true ↔ f.bytes order r ≠ [] := by
  rw [bytes_of stored, token?]
  rw [chunk] at stored
  split
  -- neither traversal enters a repeated field in a follow-up call
  · rename_i skipped
    rw [if_pos skipped] at stored
    cases stored
    simp [Chunk.empty]
  · rename_i takesPart
    rw [if_neg takesPart] at stored
    exact Leaf.token_iff_bytes writes typed full (counts (Bool.eq_false_iff.mpr takesPart)) data
      covers stored

theorem bytes_of_storeAll {c : Chunk} (h : storeAll order r fields = .ok c) :
    c.bytes = fields.flatMap (bytes order r) := by
  induction fields generalizing c with
  | nil =>
    cases h
    rfl
  | cons f rest ih =>
    obtain ⟨first, stored, h⟩ := Outcome.bind_ok.mp h
    obtain ⟨others, storedRest, h⟩ := Outcome.bind_ok.mp h
    cases h
    rw [List.flatMap_cons, bytes_of stored, ← ih storedRest]
    rfl

theorem texts_emissions (order : ByteOrder) (r : Request) (fields : List StoredField) :
    (fields.filterMap (emission? order r)).map Emission.token =
      (fields.flatMap (tokens r)).map Token.text := by
  induction fields with
  | nil => rfl
  | cons f rest ih =>
    rw [List.flatMap_cons, List.map_append, tokens_eq_toList, ← ih, List.filterMap_cons, emission?]
    cases f.token? r <;> rfl

theorem bytes_emissions
    (together : ∀ f ∈ fields, (f.token? r).isSome = true ↔ f.bytes order r ≠ []) :
    (fields.filterMap (emission? order r)).flatMap Emission.bytes =
      fields.flatMap (bytes order r) := by
  induction fields with
  | nil => rfl
  | cons f rest ih =>
    obtain ⟨here, later⟩ := List.forall_mem_cons.mp together
    rw [List.flatMap_cons, ← ih later, List.filterMap_cons, emission?]
    cases token : f.token? r with
    | none =>
      have nothing : f.bytes order r = [] := by simpa [token] using here
      rw [nothing]
      rfl
    | some t => rfl

theorem sublist_emissions (order : ByteOrder) (r : Request) (fields : List StoredField) :
    ((fields.filterMap (emission? order r)).map fun e => Value.leaf e.field).Sublist
      (fields.map Value.ofStored) := by
  induction fields with
  | nil => exact .refl _
  | cons f rest ih =>
    rw [List.filterMap_cons, emission?]
    cases f.token? r with
    | none => exact ih.cons _
    | some t => exact ih.cons_cons _

end StoredField

namespace Definition

variable {r : Request} {d : Definition}

theorem sublist_values (vs : List Value) (takes : Value → Bool) :
    (((vs.filter takes).flatMap (Value.storedFields false)).map Value.ofStored).Sublist
      (Value.walkMembers vs) := by
  induction vs with
  | nil => exact .refl _
  | cons v rest ih =>
    rw [Value.walkMembers, List.filter_cons]
    split
    · rw [List.flatMap_cons, List.map_append]
      exact (Value.sublist_storedFields v false).append ih
    · exact ih.trans (List.sublist_append_right _ _)

theorem data_of_storedFields (formed : d.WellFormed) (declared : ∀ t ∈ d.types, t.Declared)
    {f : StoredField} (inside : f ∈ d.storedFields) :
    f.leaf.place.type.kind ≠ .superDescriptor := by
  intro descriptor
  obtain ⟨t, field, -, deep, -⟩ := walk_of_storedFields formed inside
  obtain ⟨v, listed, inside⟩ := List.mem_flatMap.mp inside
  have written : v.type.isReadOnly = false := by
    have takes := (List.mem_filter.mp listed).2
    simp only [Bool.and_eq_true, Bool.not_eq_true'] at takes
    exact takes.1
  have flagged := declared t field _ deep .readOnly
    (by rw [descriptor]; exact List.mem_singleton_self _)
  exact Bool.false_ne_true ((Value.written_storedFields written false f inside).symm.trans flagged)

theorem covers_storedFields (formed : d.WellFormed)
    (covers : ∀ t ∈ FieldType.walkAll d.types, t.Covers) {f : StoredField}
    (inside : f ∈ d.storedFields) : f.leaf.place.type.Covers := by
  obtain ⟨t, field, -, deep, -⟩ := walk_of_storedFields formed inside
  exact covers _ (FieldType.mem_walkAll.mpr ⟨t, field, deep⟩)

theorem full_storedFields [Libraries] (reached : d.Reached) {f : StoredField}
    (inside : f ∈ d.storedFields) :
    f.leaf.Full := by
  obtain ⟨v, listed, inside⟩ := List.mem_flatMap.mp inside
  have listed := List.mem_of_mem_filter listed
  have deep := (Value.walk_of_storedFields (reached.wellFormed.values v listed) inside).1
  exact (reached.everywhere Leaf.lasting_full v listed).of_walk deep

/-- The number of the byte that a call starts with is a word, for every text of which the call
stores a chunk. -/
def CountsChunks (r : Request) (d : Definition) : Prop :=
  ∀ f ∈ d.storedFields, f.repeated = false → f.leaf.isPieced = true →
    r.chunk < f.leaf.bytes.length → r.call * r.chunk + 1 < UInt32.size

theorem countsPieces_storedFields [Libraries] (reached : d.Reached) (counts : d.CountsChunks r)
    {f : StoredField} (inside : f ∈ d.storedFields) : f.CountsPieces r := by
  refine fun takesPart => ⟨length_lt_storedFields reached inside, fun pieced long => ?_⟩
  cases repeated : f.repeated with
  | false => exact counts f inside repeated pieced long
  | true =>
    have first : r.call = 0 := by
      rw [repeated, Bool.true_and, Request.isFollowUp, decide_eq_false_iff_not] at takesPart
      omega
    rw [first, Nat.zero_mul]
    decide

theorem closed_tokens (writes : r.store = true) (d : Definition) :
    ∀ text ∈ (d.tokens r).map Token.text, Token.Closed text := by
  intro text listed
  obtain ⟨t, inside, rfl⟩ := List.mem_map.mp listed
  rw [tokens_eq writes] at inside
  obtain ⟨f, -, inside⟩ := List.mem_flatMap.mp inside
  rw [StoredField.tokens_eq_toList, Option.mem_toList] at inside
  exact Leaf.closed_token writes (StoredField.leaf_of_token inside).1

/-- One list of fields, each with its token and its bytes, that accounts for the format buffer and
for the record of a store. -/
structure StoreEmits (r : Request) (d : Definition) (record : List UInt8)
    (emissions : List Emission) : Prop where
  fields : (emissions.map fun e => Value.leaf e.field).Sublist (Value.walkMembers d.values)
  own : ∀ e ∈ emissions, (∃ t, e.field.token? r = some t ∧ t.text = e.token) ∧
    ∃ c, e.field.store d.platform.byteOrder r = .ok c ∧ c.bytes = e.bytes
  given : ∀ e ∈ emissions, e.bytes ≠ []
  together : ∀ f ∈ d.storedFields,
    f.tokens r = [] ↔ f.bytes d.platform.byteOrder r = []
  format : (d.format r).1 = ",".intercalate (emissions.map Emission.token) ++ "."
  record : record = emissions.flatMap Emission.bytes

namespace Sample

def emittedTypes : List FieldType :=
  [.ofKind (.text .large false) "LA", .multiple (.ofKind (.binary .two false) "MA"),
    .superDescriptor "S1" [⟨"LA", 1, 1⟩]]

theorem covers_emittedTypes : ∀ t ∈ FieldType.walkAll emittedTypes, t.Covers := by
  have whole : ∀ t ∈ FieldType.walkAll emittedTypes, t.partialRange = none := by decide
  exact fun t listed => FieldType.covers_whole (whole t listed)

theorem built_emittedTypes : ∀ t ∈ emittedTypes, t.Built := by
  simp only [emittedTypes, List.forall_mem_cons]
  exact ⟨.kind _ _, .multiple (.kind _ _) rfl, .superDescriptor _ _, by simp⟩

end Sample

end Definition

end RecordCodec
