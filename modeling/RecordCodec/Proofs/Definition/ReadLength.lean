import RecordCodec.Libraries.Standard
import RecordCodec.Proofs.Definition.Completion
import RecordCodec.Proofs.Definition.Parts
import RecordCodec.Proofs.Definition.StoreLength
import RecordCodec.Proofs.Value.Layout

/-!
The record length that a read announces and the bytes that it takes. A field of known length takes
as many bytes as its token has, call by call. The exception is a text restricted to a range that is
shorter than an earlier assignment announced it: it has no token in a later call and yet reads the
bytes that it misses.
-/
namespace RecordCodec

/-- A field that takes a known number of bytes from a record. -/
inductive FieldType.Reserved (t : FieldType) : Prop where
  | sized (sized : t.Sized) (covers : t.Covers)
  | superDescriptor (kind : t.kind = .superDescriptor) (composed : t.length ≠ 0)
  | pseudo (kind : t.kind.isPseudo = true)

theorem FieldType.Reserved.flat {t : FieldType} (reserved : t.Reserved) :
    t.kind.isStructure = false := by
  cases reserved with
  | sized sized => exact sized.flat
  | superDescriptor kind => rw [kind]; rfl
  | pseudo kind => cases same : t.kind <;> first | rfl | (rw [same] at kind; cases kind)

theorem FieldType.Reserved.covers {t : FieldType} (reserved : t.Reserved) {size : TextSize}
    {unicode : Bool} (kind : t.kind = .text size unicode) : t.Covers := by
  cases reserved with
  | sized sized covers => exact covers
  | superDescriptor other => cases kind.symm.trans other
  | pseudo other => rw [kind] at other; cases other

namespace ByteQueue

variable {q q' q'' : ByteQueue} {m n : Nat}

def Yields (q : ByteQueue) (n : Nat) (q' : ByteQueue) : Prop :=
  ∃ bytes, q.take n = .ok (bytes, q')

theorem yields_iff : q.Yields n q' ↔
    n ≤ q.rest.length ∧ q' = ⟨q.order, (q.rest.take n).reverse ++ q.taken, q.rest.drop n⟩ := by
  unfold Yields take
  dsimp only
  constructor
  · rintro ⟨bytes, taken⟩
    split at taken
    · rename_i whole
      cases taken
      rw [List.length_take] at whole
      exact ⟨by omega, rfl⟩
    · cases taken
  · rintro ⟨enough, rfl⟩
    have whole : (q.rest.take n).length = n := by simpa using enough
    exact ⟨q.rest.take n, if_pos whole⟩

theorem yields_zero (q : ByteQueue) : q.Yields 0 q :=
  yields_iff.mpr ⟨Nat.zero_le _, rfl⟩

theorem Yields.trans (first : q.Yields m q') (later : q'.Yields n q'') : q.Yields (m + n) q'' := by
  obtain ⟨enough, rfl⟩ := yields_iff.mp first
  obtain ⟨more, rfl⟩ := yields_iff.mp later
  rw [List.length_drop] at more
  exact yields_iff.mpr ⟨by omega, by simp [List.take_add]⟩

theorem Yields.offset (yields : q.Yields n q') : q'.offset = q.offset + n := by
  obtain ⟨enough, rfl⟩ := yields_iff.mp yields
  simp [ByteQueue.offset]
  omega

theorem yields_takeNat {width v : Nat} (h : q.takeNat width = .ok (v, q')) :
    q.Yields width q' := by
  obtain ⟨⟨bytes, behind⟩, taken, same⟩ := Outcome.bind_ok.mp h
  cases same
  exact ⟨bytes, taken⟩

end ByteQueue

namespace TextField

variable {p : Place} {size : TextSize} {c c' : TextContent} {r : Request} {q : ByteQueue}
  {progress : Progress}

theorem yields_readRest (h : readRest p c q = (c', .ok progress)) :
    q.Yields (c.announced - c.bytes.length) progress.queue := by
  unfold readRest at h
  split at h
  · cases h
  · rename_i rest q' taken
    dsimp only at h
    split at h
    · rename_i complete
      cases h
      have length := ByteQueue.length_take taken
      rw [List.length_append] at complete
      have asked : c.announced - c.bytes.length = rest.length := by omega
      refine ⟨rest, ?_⟩
      rw [asked, length]
      exact taken
    · cases h

theorem yields_readStart (h : readStart r c q = (c', .ok progress)) :
    q.Yields (4 + r.partialSize) progress.queue := by
  unfold readStart at h
  split at h
  · cases h
  · rename_i announced q' counted
    split at h
    · cases h
    · rename_i bytes q'' taken
      have front := (ByteQueue.yields_takeNat counted).trans ⟨bytes, taken⟩
      split at h <;> cases h <;> exact front

theorem yields_readWhole {bytes : List UInt8} {q' : ByteQueue} (fixed : p.type.length ≠ 0)
    (h : readWhole p size q = .ok (bytes, q')) : q.Yields p.type.length q' := by
  rw [readWhole, readLength, FieldType.isVariable_fixed fixed] at h
  exact ⟨bytes, h⟩

end TextField

namespace Leaf

variable {r : Request} {l l' : Leaf} {q : ByteQueue} {progress : Progress}

def missing (l : Leaf) : Nat :=
  match l.content with
  | .text size _ c =>
    if TextField.isIncomplete l.place size c then c.announced - c.bytes.length else 0
  | _ => 0

/-- The bytes that a later call reads into a text restricted to a range, without a token for it. -/
def strays (r : Request) (l : Leaf) : Nat :=
  if r.isFollowUp && l.place.type.partialRange.isSome then l.missing else 0

theorem strays_first (first : r.isFollowUp = false) (l : Leaf) : l.strays r = 0 := by
  simp [strays, first]

theorem yields_later (later : r.isFollowUp = true) (parsed : l.parse r q = (l', .ok progress)) :
    q.Yields l.missing progress.queue := by
  obtain ⟨p, content⟩ := l
  cases content with
  | pseudo =>
    cases parsed
    exact ByteQueue.yields_zero q
  | integer | octets | float | packed | unpacked | superDescriptor =>
    simp only [parse, later, if_true] at parsed
    cases parsed
    exact ByteQueue.yields_zero q
  | text size unicode c =>
    simp only [parse, TextField.parse, later, if_true] at parsed
    obtain ⟨-, outcome⟩ := Prod.mk.inj parsed
    -- A later call looks at the bytes that are missing before any range, unlike `token?`.
    rw [missing]
    dsimp only
    split
    · rename_i incomplete
      rw [if_pos incomplete] at outcome
      exact TextField.yields_readRest (Prod.ext rfl outcome)
    · rename_i complete
      rw [if_neg complete] at outcome
      cases outcome
      exact ByteQueue.yields_zero q

/-- In a later call a field is announced with the bytes that it misses, unless it is restricted. -/
theorem length_token_later (reads : r.store = false) (later : r.isFollowUp = true) (l : Leaf) :
    Token.totalLength (l.token? r).toList + l.strays r = l.missing := by
  obtain ⟨p, content⟩ := l
  cases content with
  | pseudo => simp [token?, strays, missing, Token.totalLength]
  | integer | octets | float | packed | unpacked | superDescriptor =>
    simp [token?, Place.wholeToken?, later, strays, missing, Token.totalLength]
  | text size unicode c =>
    cases range : p.type.partialRange with
    | some => simp [token?, TextField.token?, range, later, strays, Token.totalLength]
    | none =>
      cases large : TextField.isLob p size with
      | false =>
        simp [token?, TextField.token?, range, large, Place.wholeToken?, later, strays, missing,
          TextField.isIncomplete, Token.totalLength]
      | true =>
        by_cases complete : c.announced ≤ c.bytes.length
        · simp [token?, TextField.token?, range, large, reads, TextField.readToken?, later, strays,
            missing, TextField.isIncomplete, complete, Nat.not_lt.mpr complete, Token.totalLength]
        · simp [token?, TextField.token?, range, large, reads, TextField.readToken?, later, strays,
            missing, TextField.isIncomplete, complete, Nat.lt_of_not_le complete,
            Token.totalLength, Place.part]

theorem readContent_of_parse (first : r.isFollowUp = false)
    (moved : ∀ size unicode c, l.content ≠ .text size unicode c)
    (parsed : l.parse r q = (l', .ok progress)) :
    ∃ content, l.readContent q = .ok (content, progress.queue) := by
  have paired := Outcome.paired_ok.mpr parsed
  rw [paired_parse first moved] at paired
  obtain ⟨⟨content, q'⟩, read, same⟩ := Outcome.map_ok.mp paired
  cases same
  exact ⟨content, Outcome.mapError_ok.mp read⟩

theorem yields_readShort {p : Place} {bytes : List UInt8} {q' : ByteQueue}
    (fixed : p.type.length ≠ 0) (read : readShort p q = .ok (bytes, q')) :
    q.Yields p.type.length q' := by
  rw [readShort, FieldType.isVariable_fixed fixed] at read
  exact ⟨bytes, read⟩

theorem yields_readContent (typed : l.Typed) (declares : l.place.type.DeclaresLength)
    (moved : ∀ size unicode c, l.content ≠ .text size unicode c) {content : Content}
    {q' : ByteQueue} (read : l.readContent q = .ok (content, q')) :
    q.Yields l.place.type.length q' := by
  obtain ⟨p, before⟩ := l
  cases before with
  | text size unicode c => exact absurd rfl (moved size unicode c)
  | pseudo => exact absurd typed (by simp [Typed, Content.IsOf, declares.data])
  | superDescriptor bytes => exact absurd typed declares.underived
  | integer width signed v =>
    obtain ⟨taken, took, same⟩ := Outcome.map_ok.mp read
    cases same
    obtain ⟨n, counted, same⟩ := Outcome.bind_ok.mp took
    cases same
    rw [declares.binary typed]
    exact ByteQueue.yields_takeNat counted
  | float wide bits =>
    obtain ⟨taken, took, same⟩ := Outcome.map_ok.mp read
    cases same
    rw [declares.float typed]
    exact ByteQueue.yields_takeNat took
  | octets | packed | unpacked =>
    obtain ⟨taken, took, same⟩ := Outcome.map_ok.mp read
    cases same
    exact yields_readShort declares.fixed took

theorem yields_declared (typed : l.Typed) (declares : l.place.type.DeclaresLength)
    (first : r.isFollowUp = false) (parsed : l.parse r q = (l', .ok progress)) :
    q.Yields l.place.type.length progress.queue := by
  by_cases text : ∃ size unicode c, l.content = .text size unicode c
  · obtain ⟨p, content⟩ := l
    obtain ⟨size, unicode, c, rfl⟩ := text
    have fixed : p.type.length ≠ 0 := declares.fixed
    have paired := Outcome.paired_ok.mpr parsed
    rw [paired_parse_text first (declares.whole typed) (TextField.isLob_fixed fixed size)]
      at paired
    obtain ⟨⟨bytes, q'⟩, read, same⟩ := Outcome.map_ok.mp paired
    cases same
    exact TextField.yields_readWhole fixed (Outcome.mapError_ok.mp read)
  · have moved : ∀ size unicode c, l.content ≠ .text size unicode c :=
      fun size unicode c same => text ⟨size, unicode, c, same⟩
    obtain ⟨content, read⟩ := readContent_of_parse first moved parsed
    exact yields_readContent typed declares moved read

theorem yields_ranged {p : Place} {size : TextSize} {unicode : Bool} {c : TextContent}
    {range : PartialRange} (restricted : p.type.partialRange = some range)
    (first : r.isFollowUp = false) (parsed : parse r q ⟨p, .text size unicode c⟩ =
      (l', .ok progress)) :
    q.Yields (Token.totalLength (token? r ⟨p, .text size unicode c⟩).toList) progress.queue := by
  simp only [parse, TextField.parse, first, restricted, Bool.false_eq_true, if_false] at parsed
  obtain ⟨-, outcome⟩ := Prod.mk.inj parsed
  simp only [token?, TextField.token?, restricted, first, Bool.false_eq_true, if_false]
  split at outcome
  · cases outcome
  · rename_i bytes q' taken
    cases outcome
    exact ⟨bytes, taken⟩

theorem yields_lob {p : Place} {unicode : Bool} {c : TextContent} (reads : r.store = false)
    (whole : p.type.partialRange = none) (large : TextField.isLob p .large = true)
    (first : r.isFollowUp = false) (parsed : parse r q ⟨p, .text .large unicode c⟩ =
      (l', .ok progress)) :
    q.Yields (Token.totalLength (token? r ⟨p, .text .large unicode c⟩).toList) progress.queue := by
  simp only [parse, TextField.parse, first, whole, large, Bool.false_eq_true, if_false,
    if_true] at parsed
  obtain ⟨-, outcome⟩ := Prod.mk.inj parsed
  have yields := TextField.yields_readStart (Prod.ext rfl outcome)
  simpa [token?, TextField.token?, whole, large, reads, TextField.readToken?, first,
    Token.totalLength] using yields

theorem yields_superDescriptor {p : Place} {bytes : List UInt8} (composed : p.type.length ≠ 0)
    (first : r.isFollowUp = false)
    (parsed : parse r q ⟨p, .superDescriptor bytes⟩ = (l', .ok progress)) :
    q.Yields (Token.totalLength (token? r ⟨p, .superDescriptor bytes⟩).toList) progress.queue := by
  obtain ⟨content, read⟩ := readContent_of_parse first (by simp) parsed
  obtain ⟨⟨taken, behind⟩, took, same⟩ := Outcome.map_ok.mp read
  obtain ⟨-, left⟩ := Prod.mk.inj same
  rw [← left, token?]
  dsimp only
  rw [length_wholeToken composed first]
  exact ⟨taken, took⟩

theorem yields_first (reads : r.store = false) (typed : l.Typed)
    (reserved : l.place.type.Reserved) (first : r.isFollowUp = false)
    (parsed : l.parse r q = (l', .ok progress)) :
    q.Yields (Token.totalLength (l.token? r).toList) progress.queue := by
  cases reserved with
  | pseudo kind =>
    obtain ⟨p, content⟩ := l
    obtain rfl : content = .pseudo := by
      cases content with
      | pseudo => rfl
      | integer | octets | float | packed | unpacked | text | superDescriptor =>
        have typed : p.type.kind = _ := typed
        simp [typed, FieldKind.isPseudo] at kind
    cases parsed
    exact ByteQueue.yields_zero q
  | superDescriptor kind composed =>
    obtain ⟨p, content⟩ := l
    have kind : p.type.kind = .superDescriptor := kind
    rw [Typed, kind] at typed
    obtain ⟨bytes, rfl⟩ := typed.of_kind
    exact yields_superDescriptor composed first parsed
  | sized sized =>
    cases sized with
    | declared declares =>
      rw [length_token_declared typed declares first]
      exact yields_declared typed declares first parsed
    | @ranged size unicode range kind restricted =>
      obtain ⟨p, c, rfl⟩ := exists_text typed kind
      exact yields_ranged restricted first parsed
    | large lob =>
      obtain ⟨p, unicode, c, rfl, large⟩ := exists_lob typed lob
      cases restricted : p.type.partialRange with
      | some range => exact yields_ranged restricted first parsed
      | none => exact yields_lob reads restricted large first parsed

theorem yields_parse (reads : r.store = false) (typed : l.Typed)
    (reserved : l.place.type.Reserved) (parsed : l.parse r q = (l', .ok progress)) :
    q.Yields (Token.totalLength (l.token? r).toList + l.strays r) progress.queue := by
  cases call : r.isFollowUp with
  | true =>
    rw [length_token_later reads call]
    exact yields_later call parsed
  | false =>
    rw [strays_first call, Nat.add_zero]
    exact yields_first reads typed reserved call parsed

theorem wholeToken_pos {p : Place} {t : Token} (token : p.wholeToken? r = some t) :
    0 < t.length := by
  rw [Place.wholeToken?] at token
  split at token
  · cases token
  · cases token
    change 0 < p.reservedLength
    rw [Place.reservedLength]
    split
    · unfold FieldKind.variableReadLength
      split <;> decide
    · omega

theorem token_pos (reads : r.store = false) (typed : l.Typed) (reserved : l.place.type.Reserved)
    {t : Token} (token : l.token? r = some t) : 0 < t.length := by
  obtain ⟨p, content⟩ := l
  cases content with
  | pseudo => cases token
  | integer | octets | float | packed | unpacked | superDescriptor => exact wholeToken_pos token
  | text size unicode c =>
    simp only [token?, TextField.token?, reads, Bool.false_eq_true, if_false] at token
    split at token
    · rename_i range restricted
      split at token
      · cases token
      · cases token
        exact reserved.covers typed range restricted
    · split at token
      · exact wholeToken_pos token
      · unfold TextField.readToken? at token
        dsimp only at token
        split at token
        · split at token
          · cases token
          · cases token
            change 0 < c.announced - c.bytes.length
            omega
        · cases token
          change 0 < 4 + r.partialSize
          omega

end Leaf

namespace Value

def strays (r : Request) : Value → Nat
  | leaf l => l.strays r
  | node _ _ => 0

def intakes (r : Request) : ByteQueue → List Value → List (Value × Nat)
  | _, [] => []
  | q, v :: rest =>
    match (v.parse r q).2 with
    | .error _ => []
    | .ok progress => (v, progress.queue.offset - q.offset) :: intakes r progress.queue rest

variable {r : Request}

/-- A read of the value that succeeds takes what its tokens announce and what strays into it. -/
def Announces (r : Request) (v : Value) : Prop :=
  ∀ q v' progress, v.parse r q = (v', .ok progress) →
    q.Yields (Token.totalLength (v.tokens r) + v.strays r) progress.queue

theorem announces_leaf (reads : r.store = false) {l : Leaf} (typed : l.Typed)
    (reserved : l.place.type.Reserved) : (leaf l).Announces r := by
  intro q v' progress parsed
  rw [parse] at parsed
  obtain ⟨-, outcome⟩ := Prod.mk.inj parsed
  exact Leaf.yields_parse reads typed reserved (Prod.ext rfl outcome)

theorem yields_parseMembers {vs vs' : List Value} (each : ∀ v ∈ vs, v.Announces r) {q : ByteQueue}
    {left : Remainder} (parsed : parseMembers r q vs = (vs', .ok left)) :
    q.Yields (Token.totalLength (vs.flatMap (tokens r)) + (vs.map (strays r)).sum) left.queue ∧
      intakes r q vs = vs.map fun v => (v, Token.totalLength (v.tokens r) + v.strays r) := by
  induction vs generalizing q vs' left with
  | nil =>
    cases parsed
    exact ⟨ByteQueue.yields_zero q, rfl⟩
  | cons v rest ih =>
    obtain ⟨here, later⟩ := List.forall_mem_cons.mp each
    have paired := Outcome.paired_ok.mpr parsed
    rw [paired_parseMembers_cons] at paired
    obtain ⟨⟨u, progress⟩, first, paired⟩ := Outcome.bind_ok.mp paired
    obtain ⟨⟨us, behind⟩, others, same⟩ := Outcome.map_ok.mp paired
    cases same
    have first := Outcome.paired_ok.mp first
    have yields := here q u progress first
    obtain ⟨more, intakes_rest⟩ := ih later (Outcome.paired_ok.mp others)
    constructor
    · have total := yields.trans more
      rw [List.flatMap_cons, Token.totalLength_append, List.map_cons, List.sum_cons]
      convert total using 1
      omega
    · rw [intakes, first]
      simp [yields.offset, intakes_rest]

end Value

namespace Definition

open Value (partsOfMembers intakes)

variable {d d' : Definition} {r : Request}

/-- What a read takes from a record: for each value the bytes of its tokens and those that stray
into it. Without strays a value takes bytes exactly if it has a token, and the call takes as many
as it announced, which it does as long as they are a word. -/
structure ReadTakes (r : Request) (record : List UInt8) (d : Definition) (left : Remainder) :
    Prop where
  announced : Token.totalLength (d.tokens r) ≤ maxLength →
    (d.format r).2 = Token.totalLength (d.tokens r)
  consumed : left.queue.offset =
    Token.totalLength (d.tokens r) + ((partsOfMembers d.values).map (Value.strays r)).sum
  each : intakes r (.ofList d.platform.byteOrder record) (partsOfMembers d.values) =
    (partsOfMembers d.values).map fun v => (v, Token.totalLength (v.tokens r) + v.strays r)
  given : ∀ v ∈ partsOfMembers d.values, v.strays r = 0 →
    (0 < Token.totalLength (v.tokens r) + v.strays r ↔ v.tokens r ≠ [])
  equal : (∀ v ∈ partsOfMembers d.values, v.strays r = 0) →
    left.queue.offset ≤ maxLength → (d.format r).2 = left.queue.offset

theorem leaf_of_mem_parts (formed : d.WellFormed)
    (reserved : ∀ t ∈ FieldType.walkAll d.types, t.kind = .group ∨ t.Reserved) {v : Value}
    (inside : v ∈ partsOfMembers d.values) :
    ∃ l, v = .leaf l ∧ l.Typed ∧ l.place.type.Reserved := by
  obtain ⟨t, field, kept, deep, single, -⟩ := formed.of_mem_parts inside
  have reserved := reserved v.type (FieldType.mem_walkAll.mpr ⟨t, field, deep⟩)
  have reserved := reserved.resolve_left single
  cases kept with
  | leaf typed => exact ⟨_, rfl, typed, reserved⟩
  | node kind => exact absurd (kind.symm.trans reserved.flat) Bool.noConfusion

/-- A read that succeeds takes as many bytes as were announced for the call, and those that stray
into texts restricted to a range. -/
theorem read_length [Libraries] (reached : d.Reached)
    (reserved : ∀ t ∈ FieldType.walkAll d.types, t.kind = .group ∨ t.Reserved)
    (reads : r.store = false) {record : List UInt8} {followUp : FollowUp}
    (parsed : d.parse r record = (d', .ok followUp)) :
    ∃ left, Value.parseMembers r (.ofList d.platform.byteOrder record) d.values =
      (d'.values, .ok left) ∧ d.ReadTakes r record left := by
  have formed := reached.wellFormed
  have leaves := fun v inside => leaf_of_mem_parts formed reserved (v := v) inside
  have each : ∀ v ∈ partsOfMembers d.values, v.Announces r := by
    intro v inside
    obtain ⟨l, rfl, typed, reserved⟩ := leaves v inside
    exact Value.announces_leaf reads typed reserved
  obtain ⟨left, whole, -⟩ := values_of_parse parsed
  have opened : Value.parseMembers r (.ofList d.platform.byteOrder record)
      (partsOfMembers d.values) = (partsOfMembers d'.values, .ok left) := by
    rw [Value.parseMembers_parts, whole]
  obtain ⟨yields, taken⟩ := Value.yields_parseMembers each opened
  rw [← tokens_read formed reads] at yields
  have start : (ByteQueue.ofList d.platform.byteOrder record).offset = 0 := rfl
  have consumed := yields.offset
  rw [start, Nat.zero_add] at consumed
  refine ⟨left, whole, format_length, consumed, taken, ?_, ?_⟩
  · intro v inside none
    obtain ⟨l, rfl, typed, reserved⟩ := leaves v inside
    rw [none, Nat.add_zero, Value.tokens]
    cases token : l.token? r with
    | none => simp [Token.totalLength]
    | some t => simpa [Token.totalLength] using Leaf.token_pos reads typed reserved token
  · intro none fits
    have same : left.queue.offset = Token.totalLength (d.tokens r) := by
      rw [consumed, List.map_congr_left none, List.map_const', List.sum_replicate]
      rfl
    rw [same] at fits ⊢
    exact format_length fits

namespace Sample

/-- A decimal in a group, a super-descriptor, a field without data, a restricted text and a large
one. -/
def reservedTypes : List FieldType :=
  [.group "GA" [{ FieldType.ofKind (.packed .number) "AA" with length := 3 }],
    .superDescriptor "S1" [⟨"AA", 1, 2⟩], .ofKind (.pseudo .collation) "CO", restricted,
    .ofKind (.text .large false) "LA"]

theorem reserved_reservedTypes : ∀ t ∈ FieldType.walkAll reservedTypes,
    t.kind = .group ∨ t.Reserved := by
  refine List.forall_mem_cons.mpr ⟨.inl rfl, List.forall_mem_cons.mpr ⟨.inr ?_,
    List.forall_mem_cons.mpr ⟨.inr ?_, List.forall_mem_cons.mpr ⟨.inr ?_,
    List.forall_mem_cons.mpr ⟨.inr ?_, List.forall_mem_cons.mpr ⟨.inr ?_, nofun⟩⟩⟩⟩⟩⟩
  · exact .sized (.declared (show 0 < 3 by decide)) (FieldType.covers_whole rfl)
  · exact .superDescriptor rfl (show 2 ≠ 0 by decide)
  · exact .pseudo rfl
  · exact .sized (.ranged rfl rfl) (FieldType.covers_withPartial _ 1 2)
  · exact .sized (.large rfl) (FieldType.covers_whole rfl)

def restrictedLob : FieldType :=
  (FieldType.ofKind (.text .large false) "LB").withPartial (.ofBounds 1 4)

end Sample

theorem sample_read_length : ∃ d d' : Definition, ∃ left, d.Reached ∧
    d.types = Sample.reservedTypes ∧
    d.parse ((Sample.inPieces false).atCall 1) [3, 4, 5] = (d', .ok .none) ∧
    Value.parseMembers ((Sample.inPieces false).atCall 1)
      (.ofList d.platform.byteOrder [3, 4, 5]) d.values = (d'.values, .ok left) ∧
    d.format ((Sample.inPieces false).atCall 1) = ("LA(3,3).", 3) ∧ left.queue.offset = 3 := by
  obtain ⟨d, reached, types, plain, few, format, d', parsed⟩ : ∃ d : Definition, d.Reached ∧
      d.types = Sample.reservedTypes ∧
      ((partsOfMembers d.values).all fun v =>
        v.strays ((Sample.inPieces false).atCall 1) == 0) = true ∧
      Token.totalLength (d.tokens ((Sample.inPieces false).atCall 1)) + ((partsOfMembers
        d.values).map (Value.strays ((Sample.inPieces false).atCall 1))).sum ≤ maxLength ∧
      d.format ((Sample.inPieces false).atCall 1) = ("LA(3,3).", 3) ∧
      ∃ d', d.parse ((Sample.inPieces false).atCall 1) [3, 4, 5] = (d', .ok .none) :=
    ⟨_, .parsed (.new (rfl : ofTypes .openSystem Sample.reservedTypes = .ok _))
      (Sample.inPieces false) [0, 0, 0x1C, 0, 0, 7, 8, 0, 0, 0, 5, 1, 2], rfl, rfl,
      by decide +kernel, by decide +kernel, _, rfl⟩
  obtain ⟨left, whole, takes⟩ := read_length reached (types ▸ Sample.reserved_reservedTypes) rfl
    parsed
  have equal := takes.equal (fun v inside => by simpa using List.all_eq_true.mp plain v inside)
    (takes.consumed.trans_le few)
  rw [format] at equal
  exact ⟨d, d', left, reached, types, parsed, whole, format, equal.symm⟩

/-- A text that was assigned ten bytes and read four: the second call reads six bytes more for it,
for which there is no token. -/
theorem restricted_lob_strays : ∃ d d' : Definition, ∃ left, d.Reached ∧
    d.types = [Sample.restrictedLob] ∧ Sample.restrictedLob.Reserved ∧
    d.format (.ofCall false 1) = (".", 0) ∧
    d.parse (.ofCall false 1) [5, 6, 7, 8, 9, 10] = (d', .ok .none) ∧
    Value.parseMembers (.ofCall false 1) (.ofList d.platform.byteOrder [5, 6, 7, 8, 9, 10])
      d.values = (d'.values, .ok left) ∧ left.queue.offset = 6 :=
  ⟨_, _, _, .parsed (.assigned (.new (rfl : ofTypes .openSystem [Sample.restrictedLob] = .ok _))
    "LB" (.bytes [1, 2, 3, 4, 5, 6, 7, 8, 9, 10]) rfl) (.ofCall false 0) [1, 2, 3, 4], rfl,
    .sized (.ranged rfl rfl) (FieldType.covers_withPartial _ 1 4), by decide +kernel, rfl, rfl,
    rfl⟩

end Definition

end RecordCodec
