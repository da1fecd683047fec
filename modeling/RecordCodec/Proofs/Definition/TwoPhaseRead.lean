import Mathlib.Data.List.Forall2
import RecordCodec.Libraries.Standard
import RecordCodec.Proofs.Definition.Parts
import RecordCodec.Proofs.Value.Pieces

/-!
Large texts that are read in two calls. The first record has the size and the first bytes of each
text, the second one what the long ones still miss; then every text has its payload.
-/
namespace RecordCodec

def FieldFault.IsMismatch (fault : FieldFault) : Prop :=
  fault.code = 56

theorem TextField.consumes_readRest {p : Place} {c : TextContent} {missing : List UInt8}
    (size : c.announced = c.bytes.length + missing.length) (order : ByteOrder) :
    Consumes order missing FieldFault.IsMismatch (fun q => Outcome.paired (readRest p c q))
      fun q => (⟨c.bytes ++ missing, c.announced⟩, .done q) := by
  have lacking : c.announced - c.bytes.length = missing.length := by omega
  constructor
  · intro taken rest
    have asked : min missing.length (missing ++ rest).length = missing.length := by
      rw [List.length_append]
      omega
    have front := (Consumes.take order missing).whole taken rest
    have same : (c.bytes ++ missing).length = c.announced := by
      rw [List.length_append, size]
    simp only [readRest, lacking, ByteQueue.remaining, asked, front, same, if_true]
    rfl
  · intro taken front behind parts given
    have fewer : front.length < missing.length := by
      rw [parts, List.length_append]
      have := List.length_pos_iff.mpr given
      omega
    have asked : min missing.length front.length = front.length := by omega
    have taken_ := (Consumes.take order front).whole taken []
    rw [List.append_nil] at taken_
    have short : (c.bytes ++ front).length ≠ c.announced := by
      rw [List.length_append, size]
      omega
    -- what there is gets taken all the same, and only then the length is found wrong
    refine ⟨.lobLength p.shortName c.announced (c.bytes ++ front).length, ?_, rfl⟩
    simp only [readRest, lacking, ByteQueue.remaining, asked, taken_, short, if_false]
    rfl

namespace Leaf

variable {r : Request} {l : Leaf}

def holding (bytes : List UInt8) (announced : Nat) (l : Leaf) : Leaf :=
  match l.content with
  | .text size unicode _ => { l with content := .text size unicode ⟨bytes, announced⟩ }
  | _ => l

theorem bytes_holding (typed : l.Typed) (pieced : l.isPieced = true) (bytes : List UInt8)
    (announced : Nat) : (l.holding bytes announced).bytes = bytes := by
  obtain ⟨p, unicode, c, rfl, -⟩ := exists_pieced typed pieced
  rfl

theorem parse_start (typed : l.Typed) (pieced : l.isPieced = true) (first : r.isFollowUp = false)
    {payload padding : List UInt8} (counted : payload.length < Bytes.capacity 4)
    (padded : padding.length = r.partialSize - payload.length) (order : ByteOrder)
    (taken rest : List UInt8) :
    l.parse r ⟨order, taken, (order.encode 4 payload.length ++
        (payload.take r.partialSize ++ padding)) ++ rest⟩ =
      (l.holding (payload.take r.partialSize) payload.length,
        .ok ⟨⟨order, (order.encode 4 payload.length ++
          (payload.take r.partialSize ++ padding)).reverse ++ taken, rest⟩, true,
          if r.partialSize < payload.length then .read else .none⟩) := by
  obtain ⟨p, unicode, c, rfl, lob, whole⟩ := exists_pieced typed pieced
  have length : (payload.take r.partialSize ++ padding).length = r.partialSize := by
    rw [List.length_append, List.length_take, padded]
    omega
  have header := (Consumes.takeNat order counted).whole taken
    (payload.take r.partialSize ++ padding ++ rest)
  have start := (Consumes.take order (payload.take r.partialSize ++ padding)).whole
    ((order.encode 4 payload.length).reverse ++ taken) rest
  rw [length] at start
  rw [List.append_assoc, parse]
  simp only [TextField.parse, first, whole, lob, TextField.readStart, header, start]
  rw [length]
  by_cases long : r.partialSize < payload.length
  · have none : padding = [] := List.length_eq_zero_iff.mp (by omega)
    simp [Nat.not_le.mpr long, long, none, holding]
  · have all : payload.take r.partialSize = payload := List.take_of_length_le (by omega)
    simp [Nat.le_of_not_lt long, long, all, holding, Progress.done]

theorem consumes_rest (typed : l.Typed) (pieced : l.isPieced = true) (later : r.isFollowUp = true)
    (payload : List UInt8) (order : ByteOrder) :
    Consumes order (payload.drop r.partialSize) FieldFault.IsMismatch
      (fun q => Outcome.paired
        ((l.holding (payload.take r.partialSize) payload.length).parse r q))
      fun q => (l.holding payload payload.length,
        ⟨q, decide (r.partialSize < payload.length), .none⟩) := by
  obtain ⟨p, unicode, c, rfl, lob, whole⟩ := exists_pieced typed pieced
  have length : (payload.take r.partialSize).length = min r.partialSize payload.length :=
    List.length_take
  by_cases long : r.partialSize < payload.length
  · have incomplete : TextField.isIncomplete p .large
        ⟨payload.take r.partialSize, payload.length⟩ = true := by
      simp [TextField.isIncomplete, lob, length]
      omega
    have size : payload.length =
        (payload.take r.partialSize).length + (payload.drop r.partialSize).length := by
      rw [length, List.length_drop]
      omega
    have read := (TextField.consumes_readRest (p := p)
      (c := ⟨payload.take r.partialSize, payload.length⟩) size order).map
        (Prod.map (fun c => Leaf.mk p (.text .large unicode c)) id)
    simp only [Prod.map_apply, id, List.take_append_drop] at read
    simp only [decide_eq_true long]
    refine read.congr fun q => ?_
    simp only [holding, parse, TextField.parse, later, incomplete, Outcome.paired]
    rcases TextField.readRest p ⟨payload.take r.partialSize, payload.length⟩ q with
      ⟨c', fault | progress⟩ <;> rfl
  · have none : payload.drop r.partialSize = [] := List.drop_eq_nil_of_le (by omega)
    have all : payload.take r.partialSize = payload := List.take_of_length_le (by omega)
    have complete : TextField.isIncomplete p .large ⟨payload, payload.length⟩ = false := by
      simp [TextField.isIncomplete]
    rw [none, all]
    refine (Consumes.nothing _ _).congr fun q => ?_
    simp [holding, parse, TextField.parse, later, complete, Outcome.paired, long,
      Progress.skipped, Except.map]

theorem token_rest (typed : l.Typed) (pieced : l.isPieced = true) (reads : r.store = false)
    (later : r.isFollowUp = true) (payload : List UInt8) :
    (l.holding (payload.take r.partialSize) payload.length).token? r =
      if r.partialSize < payload.length then some (l.place.part (r.partialSize + 1)
        (payload.length - r.partialSize)) else none := by
  obtain ⟨p, unicode, c, rfl, lob, whole⟩ := exists_pieced typed pieced
  have length : (payload.take r.partialSize).length = min r.partialSize payload.length :=
    List.length_take
  simp only [holding, token?, TextField.token?, whole, lob, reads, TextField.readToken?, later,
    length, Bool.not_true, Bool.false_eq_true, if_false, if_true]
  by_cases long : r.partialSize < payload.length
  · have present : min r.partialSize payload.length = r.partialSize := by omega
    rw [present, if_pos long, if_neg (by omega)]
  · rw [if_neg long, if_pos (by omega)]

theorem isIncomplete_of_small (typed : l.Typed) (small : l.place.type.isLob = false) :
    l.isIncomplete = false := by
  obtain ⟨p, content⟩ := l
  cases content with
  | text size unicode c =>
    have lob := TextField.isLob_of_kind typed
    rw [show p.type.isLob = false from small] at lob
    simp [isIncomplete, TextField.isIncomplete, lob]
  | integer | octets | float | packed | unpacked | superDescriptor | pseudo => rfl

theorem parse_other (typed : l.Typed) (small : l.place.type.isLob = false)
    (later : r.isFollowUp = true) :
    ∃ tookPart, ∀ q, l.parse r q = (l, .ok ⟨q, tookPart, .none⟩) := by
  obtain ⟨p, content⟩ := l
  cases content with
  | text size unicode c =>
    refine ⟨false, fun q => ?_⟩
    have complete : TextField.isIncomplete p size c = false := isIncomplete_of_small typed small
    simp [parse, TextField.parse, later, complete, Progress.skipped]
  | pseudo => exact ⟨true, fun q => rfl⟩
  | integer | octets | float | packed | unpacked | superDescriptor =>
    exact ⟨false, fun q => by simp [parse, later, Progress.skipped]⟩

end Leaf

namespace Value

/-- A field or a repeated field of a definition whose large texts stand outside of repeated
fields. -/
structure Part (u : Value) : Prop where
  formed : u.WellFormed
  single : u.type.kind ≠ .group
  whole : u.type.isLob = true → u.type.partialRange = none
  outside : u.type.kind.isRepeated = true → ∀ m ∈ FieldType.walkAll u.type.children, m.isLob = false
  periodic : u.place.periodicIndex = 0
  multiple : u.place.multipleIndex = 0

variable {r : Request} {order : ByteOrder} {u : Value}

theorem Part.isPieced {l : Leaf} (part : (leaf l).Part) (lob : l.place.type.isLob = true) :
    l.isPieced = true := by
  rw [Leaf.isPieced, lob, show l.place.type.partialRange = none from part.whole lob]
  rfl

theorem Part.of_place {u' : Value} (part : u.Part) (formed : u'.WellFormed)
    (place : u'.place = u.place) : u'.Part := by
  have type : u'.type = u.type := congrArg Place.type place
  refine ⟨formed, ?_, ?_, ?_, ?_, ?_⟩
  · rw [type]
    exact part.single
  · rw [type]
    exact part.whole
  · rw [type]
    exact part.outside
  · rw [place]
    exact part.periodic
  · rw [place]
    exact part.multiple

theorem Part.eq_of_isLob {l : Leaf} (part : u.Part) (inside : leaf l ∈ u.walk)
    (lob : l.place.type.isLob = true) : u = leaf l := by
  cases part.formed.flat part.single with
  | leaf l' => exact (List.mem_singleton.mp inside).symm
  | repeated p elements kind =>
    rcases mem_walk_node.mp inside with same | ⟨element, listed, v, member, deep⟩
    · cases same
    · obtain ⟨kept, child⟩ := part.formed.member listed member
      have field : l.place.type ∈ FieldType.walkAll p.type.children :=
        FieldType.mem_walkAll.mpr ⟨v.type, child, (kept.of_mem_walk _ deep).2⟩
      cases (part.outside kind _ field).symm.trans lob

theorem Part.need_walk (part : u.Part) (small : u.type.isLob = false) : need u.walk = .none := by
  have complete : ∀ w ∈ u.walk, w.lacks = false := by
    intro w inside
    cases w with
    | node => rfl
    | leaf l =>
      have plain : l.place.type.isLob = false := by
        apply Bool.eq_false_iff.mpr
        intro lob
        cases part.eq_of_isLob inside lob
        cases small.symm.trans lob
      have typed := (part.formed.of_mem_walk _ inside).1.typed
      show (l.place.type.partialRange.isNone && l.isIncomplete) = false
      rw [Leaf.isIncomplete_of_small typed plain, Bool.and_false]
  rw [need, if_neg]
  simpa using complete

theorem Part.parse_later (part : u.Part) (small : u.type.isLob = false)
    (later : r.isFollowUp = true) :
    ∃ tookPart, ∀ q, u.parse r q = (u, .ok ⟨q, tookPart, .none⟩) := by
  cases part.formed.flat part.single with
  | leaf l =>
    obtain ⟨tookPart, idle⟩ := Leaf.parse_other part.formed.typed small later
    exact ⟨tookPart, fun q => by rw [parse, idle q]⟩
  | repeated p elements kind =>
    exact ⟨false, fun q => by simp [parse, kind, later, Progress.skipped]⟩

theorem Part.tokens_later (part : u.Part) (small : u.type.isLob = false)
    (later : r.isFollowUp = true) : u.tokens r = [] := by
  cases part.formed.flat part.single with
  | leaf l =>
    have other : l.isPieced = false := by
      rw [Leaf.isPieced, show l.place.type.isLob = false from small]
      rfl
    rw [tokens, Leaf.token_other part.formed.typed other later]
    rfl
  | repeated p elements kind => simp [tokens, kind, later]

/-- What the first record has for a part: the payload of a large text with what fills up its first
bytes, or bytes of another part with the part as it reads them. -/
inductive Segment where
  | lob (payload padding : List UInt8)
  | other (bytes : List UInt8) (after : Value)

namespace Segment

def first (order : ByteOrder) (partialSize : Nat) : Segment → List UInt8
  | lob payload padding =>
    order.encode 4 payload.length ++ (payload.take partialSize ++ padding)
  | other bytes _ => bytes

def rest (partialSize : Nat) : Segment → List UInt8
  | lob payload _ => payload.drop partialSize
  | other _ _ => []

def isLong (partialSize : Nat) : Segment → Bool
  | lob payload _ => decide (partialSize < payload.length)
  | other _ _ => false

def token? (partialSize : Nat) (name : String) : Segment → Option Token
  | lob payload _ =>
    if partialSize < payload.length then
      some (.ofPart name (partialSize + 1) (payload.length - partialSize))
    else none
  | other _ _ => none

/-- A segment for a part: four bytes count a payload, and another part takes exactly its bytes. -/
inductive Of (order : ByteOrder) (r : Request) : Value → Segment → Prop where
  | lob {l : Leaf} {payload padding : List UInt8} (lob : l.place.type.isLob = true)
      (counted : payload.length < Bytes.capacity 4)
      (padded : padding.length = r.partialSize - payload.length) :
      Of order r (.leaf l) (.lob payload padding)
  | other {u after : Value} {bytes : List UInt8} {tookPart : Bool} {followUp : FollowUp}
      (small : u.type.isLob = false)
      (reads : ∀ taken rest, u.parse (r.atCall 0) ⟨order, taken, bytes ++ rest⟩ =
        (after, .ok ⟨⟨order, bytes.reverse ++ taken, rest⟩, tookPart, followUp⟩)) :
      Of order r u (.other bytes after)

def reading (got : List UInt8 → List UInt8) (u : Value) : Segment → Value
  | lob payload _ =>
    match u with
    | .leaf l => .leaf (l.holding (got payload) payload.length)
    | u => u
  | other _ after => after

/-- Whether a part is as the record has it, where a text has got this much of its payload. -/
def Holds (got : List UInt8 → List UInt8) (u : Value) : Segment → Prop
  | lob payload _ => u.bytes = got payload
  | other _ after => u = after

variable {s : Segment}

theorem Of.parse_first [Libraries] (of : Of order r u s) (part : u.Part) : ∃ tookPart, ∀ taken rest,
    u.parse (r.atCall 0) ⟨order, taken, s.first order r.partialSize ++ rest⟩ =
      (s.reading (List.take r.partialSize) u, .ok ⟨⟨order,
        (s.first order r.partialSize).reverse ++ taken, rest⟩, tookPart,
        if s.isLong r.partialSize then .read else .none⟩) := by
  cases of with
  | @lob l payload padding lob counted padded =>
    have typed : l.Typed := part.formed.typed
    have pieced : l.isPieced = true := part.isPieced lob
    refine ⟨true, fun taken rest => ?_⟩
    have read := Leaf.parse_start (r := r.atCall 0) typed pieced rfl counted padded order taken rest
    simp only [first, reading, isLong, parse, decide_eq_true_eq]
    exact congrArg (fun x => (leaf x.1, x.2)) read
  | @other _ after bytes tookPart followUp small reads =>
    have kept := wellFormed_parse (r.atCall 0) ⟨order, [], bytes ++ []⟩ part.formed
    -- whatever the part is, it holds no large text, so its read asks for no other call
    have need := (started_parse (r := r.atCall 0) rfl _ (reads [] [])).need
    rw [reads [] []] at kept
    have type : after.type = u.type := congrArg Place.type kept.2
    rw [(part.of_place kept.1 kept.2).need_walk (by rw [type]; exact small)] at need
    cases need
    exact ⟨tookPart, reads⟩

theorem Of.part_reading [Libraries] (of : Of order r u s) (part : u.Part) :
    (s.reading (List.take r.partialSize) u).Part ∧
      (s.reading (List.take r.partialSize) u).place = u.place := by
  obtain ⟨tookPart, read⟩ := of.parse_first part
  have kept := wellFormed_parse (r.atCall 0)
    ⟨order, [], s.first order r.partialSize ++ []⟩ part.formed
  rw [read [] []] at kept
  exact ⟨part.of_place kept.1 kept.2, kept.2⟩

theorem Of.consumes_rest [Libraries] (of : Of order r u s) (part : u.Part) (k : Nat) :
    ∃ tookPart, Consumes order (s.rest r.partialSize) FieldFault.IsMismatch
      (fun q => Outcome.paired ((s.reading (List.take r.partialSize) u).parse (r.atCall (k + 1)) q))
      fun q => (s.reading id u, ⟨q, tookPart, .none⟩) := by
  have after := of.part_reading part
  cases of with
  | @lob l payload padding lob counted padded =>
    refine ⟨decide (r.partialSize < payload.length), ?_⟩
    exact ((Leaf.consumes_rest (r := r.atCall (k + 1)) part.formed.typed (part.isPieced lob)
      (r.isFollowUp_atCall_succ k) payload order).map (Prod.map leaf id)).congr
        fun q => paired_parse_leaf _ q
  | @other _ after' bytes tookPart followUp small reads =>
    have type : after'.type = u.type := congrArg Place.type after.2
    obtain ⟨tookPart, idle⟩ := after.1.parse_later (by rw [← small]; exact congrArg _ type)
      (r.isFollowUp_atCall_succ k)
    exact ⟨tookPart, (Consumes.nothing _ _).congr fun q => by rw [idle q]; rfl⟩

theorem Of.tokens_rest [Libraries] (of : Of order r u s) (part : u.Part) (reads : r.store = false)
    (k : Nat) :
    (s.reading (List.take r.partialSize) u).tokens (r.atCall (k + 1)) =
      (s.token? r.partialSize u.shortName).toList := by
  have after := of.part_reading part
  cases of with
  | @lob l payload padding lob counted padded =>
    have token := Leaf.token_rest (r := r.atCall (k + 1)) part.formed.typed (part.isPieced lob)
      reads (r.isFollowUp_atCall_succ k) payload
    rw [Place.part_plain (p := l.place) part.periodic part.multiple] at token
    simp only [reading, tokens, token?]
    exact congrArg Option.toList token
  | @other _ after' bytes tookPart followUp small reads =>
    have type : after'.type = u.type := congrArg Place.type after.2
    exact after.1.tokens_later (by rw [← small]; exact congrArg _ type)
      (r.isFollowUp_atCall_succ k)

variable {us : List Value} {ss : List Segment}

theorem parseMembers_first [Libraries] (segments : List.Forall₂ (Of order r) us ss)
    (parts : ∀ u ∈ us, u.Part) (taken rest : List UInt8) :
    parseMembers (r.atCall 0) ⟨order, taken, ss.flatMap (first order r.partialSize) ++ rest⟩ us =
      (List.zipWith (reading (List.take r.partialSize)) us ss, .ok ⟨⟨order,
        (ss.flatMap (first order r.partialSize)).reverse ++ taken, rest⟩,
        if ss.any (isLong r.partialSize) then .read else .none⟩) := by
  induction segments generalizing taken with
  | nil => rfl
  | @cons u s us ss of _ ih =>
    obtain ⟨part, others⟩ := List.forall_mem_cons.mp parts
    obtain ⟨tookPart, read⟩ := of.parse_first part
    rw [List.flatMap_cons, List.append_assoc, parseMembers, read, List.any_cons,
      List.zipWith_cons_cons]
    dsimp only
    rw [ih others, List.reverse_append, List.append_assoc]
    cases s.isLong r.partialSize <;> cases ss.any (isLong r.partialSize) <;> rfl

theorem consumes_parseMembers_rest [Libraries] (segments : List.Forall₂ (Of order r) us ss)
    (parts : ∀ u ∈ us, u.Part) (k : Nat) :
    Consumes order (ss.flatMap (rest r.partialSize)) FieldFault.IsMismatch
      (fun q => Outcome.paired (parseMembers (r.atCall (k + 1)) q
        (List.zipWith (reading (List.take r.partialSize)) us ss)))
      fun q => (List.zipWith (reading id) us ss, ⟨q, .none⟩) := by
  induction segments with
  | nil => exact Consumes.nothing _ _
  | @cons u s us ss of _ ih =>
    obtain ⟨part, others⟩ := List.forall_mem_cons.mp parts
    obtain ⟨tookPart, read⟩ := of.consumes_rest part k
    have behind := (ih others).map (Prod.map (s.reading id u :: ·) fun left =>
      Remainder.mk left.queue (FollowUp.none.join left.followUp))
    rw [List.flatMap_cons, List.zipWith_cons_cons, List.zipWith_cons_cons]
    exact (read.bind _ behind).congr fun q => paired_parseMembers_cons _ _ q

def restTokens (partialSize : Nat) (us : List Value) (ss : List Segment) : List Token :=
  (us.zip ss).filterMap fun (u, s) => s.token? partialSize u.shortName

theorem flatMap_tokens_rest [Libraries] (segments : List.Forall₂ (Of order r) us ss)
    (parts : ∀ u ∈ us, u.Part) (reads : r.store = false) (k : Nat) :
    (List.zipWith (reading (List.take r.partialSize)) us ss).flatMap (tokens (r.atCall (k + 1))) =
      restTokens r.partialSize us ss := by
  unfold restTokens
  induction segments with
  | nil => rfl
  | @cons u s us ss of _ ih =>
    obtain ⟨part, others⟩ := List.forall_mem_cons.mp parts
    rw [List.zipWith_cons_cons, List.flatMap_cons, ih others, of.tokens_rest part reads,
      List.zip_cons_cons, List.filterMap_cons]
    dsimp only
    cases s.token? r.partialSize u.shortName <;> rfl

theorem holds_reading (segments : List.Forall₂ (Of order r) us ss) (parts : ∀ u ∈ us, u.Part)
    (got : List UInt8 → List UInt8) :
    List.Forall₂ (Holds got) (List.zipWith (reading got) us ss) ss := by
  induction segments with
  | nil => exact .nil
  | @cons u s us ss of _ ih =>
    obtain ⟨part, others⟩ := List.forall_mem_cons.mp parts
    refine .cons ?_ (ih others)
    cases of with
    | lob lob => exact Leaf.bytes_holding part.formed.typed (part.isPieced lob) _ _
    | other => rfl

theorem closed_restTokens (partialSize : Nat) (us : List Value) (ss : List Segment) :
    ∀ text ∈ (restTokens partialSize us ss).map Token.text, Token.Closed text := by
  intro text inside
  obtain ⟨token, listed, rfl⟩ := List.mem_map.mp inside
  obtain ⟨⟨u, s⟩, -, made⟩ := List.mem_filterMap.mp listed
  cases s with
  | other => cases made
  | lob payload padding =>
    simp only [token?] at made
    split at made
    · cases made
      exact Token.closed_ofPart _ _ _
    · cases made

end Segment

end Value

namespace Definition

open Value (partsOfMembers Segment)

variable {r : Request} {d : Definition} {ss : List Segment}

theorem part_of_mem (formed : d.WellFormed) (plain : ∀ t ∈ d.types, t.LobsPlain) :
    ∀ u ∈ partsOfMembers d.values, u.Part := by
  intro u inside
  obtain ⟨t, field, kept, inner, single, periodic, multiple⟩ := formed.of_mem_parts inside
  exact ⟨kept, single, (plain t field).whole _ inner, (plain t field).outside _ inner, periodic,
    multiple⟩

/-- A definition reads a record in two calls. The first one asks for the second if some payload is
longer than it takes; the second one fetches what the long payloads miss, and no less of it. -/
structure ReadsInTwoCalls (r : Request) (d d₁ d₂ : Definition) (ss : List Segment) : Prop where
  first : d.parse (r.atCall 0) (ss.flatMap (Segment.first d.platform.byteOrder r.partialSize)) =
    (d₁, .ok (if ss.any (Segment.isLong r.partialSize) then .read else .none))
  started : List.Forall₂ (Segment.Holds (List.take r.partialSize)) (partsOfMembers d₁.values) ss
  format : (d₁.format (r.atCall 1)).1 = ",".intercalate
    ((Segment.restTokens r.partialSize (partsOfMembers d.values) ss).map Token.text) ++ "."
  length : Token.totalLength (Segment.restTokens r.partialSize (partsOfMembers d.values) ss) ≤
      maxLength → (d₁.format (r.atCall 1)).2 =
    Token.totalLength (Segment.restTokens r.partialSize (partsOfMembers d.values) ss)
  second : d₁.parse (r.atCall 1) (ss.flatMap (Segment.rest r.partialSize)) = (d₂, .ok .none)
  finished : List.Forall₂ (Segment.Holds id) (partsOfMembers d₂.values) ss
  lobs : ∀ l, Value.leaf l ∈ Value.walkMembers d₂.values → l.place.type.isLob = true →
    .leaf l ∈ partsOfMembers d₂.values
  cut : ∀ front behind, ss.flatMap (Segment.rest r.partialSize) = front ++ behind → behind ≠ [] →
    ∃ fault, (d₁.parse (r.atCall 1) front).2 = .error fault ∧ fault.code = 56

theorem isLob_mem_parts (formed : d.WellFormed) (plain : ∀ t ∈ d.types, t.LobsPlain) (l : Leaf)
    (inside : .leaf l ∈ Value.walkMembers d.values) (lob : l.place.type.isLob = true) :
    .leaf l ∈ partsOfMembers d.values := by
  obtain ⟨u, part, deep⟩ := Value.mem_walkMembers.mp (formed.mem_walk_parts inside)
  rw [← (part_of_mem formed plain u part).eq_of_isLob deep lob]
  exact part

/-- A read in two calls is exact, whatever the payloads are and the bytes behind short ones. -/
theorem reads_in_two_calls [Libraries] (reached : d.Reached) (plain : ∀ t ∈ d.types, t.LobsPlain)
    (reads : r.store = false)
    (segments : List.Forall₂ (Segment.Of d.platform.byteOrder r) (partsOfMembers d.values) ss) :
    ∃ d₁ d₂, d.ReadsInTwoCalls r d₁ d₂ ss := by
  have parts := part_of_mem reached.wellFormed plain
  have read := Segment.parseMembers_first segments parts [] []
  rw [List.append_nil] at read
  obtain ⟨values₁, first, started⟩ := parse_of_parts read
  have reached₁ := reached.of_parse first
  have rest := Segment.consumes_parseMembers_rest segments parts 0
  rw [← started] at rest
  have whole := Outcome.paired_ok.mp (rest.whole [] [])
  rw [List.append_nil] at whole
  obtain ⟨values₂, second, finished⟩ := @parse_of_parts _ { d with values := values₁ } _ _ _ whole
  have reached₂ := reached₁.of_parse second
  have tokens := (tokens_read (r := r.atCall 1) reached₁.wellFormed reads).trans
    (started ▸ Segment.flatMap_tokens_rest segments parts reads 0)
  refine ⟨{ d with values := values₁ }, { d with values := values₂ }, first, ?_, ?_, ?_, second, ?_,
    isLob_mem_parts reached₂.wellFormed plain, ?_⟩
  · rw [started]
    exact Segment.holds_reading segments parts _
  · rw [format, tokens]
    exact congrArg (· ++ ".") (Token.appendTexts_empty _ (Segment.closed_restTokens _ _ _))
  · intro fits
    rw [← tokens] at fits ⊢
    exact format_length fits
  · rw [finished]
    exact Segment.holds_reading segments parts _
  · intro front behind same given
    obtain ⟨fault, failed, mismatch⟩ := rest.cut [] front behind same given
    exact ⟨fault, @parse_error_of_parts _ { d with values := values₁ } _ _
      (Outcome.paired_error.mp failed), mismatch⟩

namespace Sample

def readAtMost (partialSize : Nat) : Request :=
  { Request.ofCall false 0 with partialSize }

def segments : List Segment :=
  [.lob [1, 2, 3, 4, 5] [],
    .other [0x78, 0x79] (.leaf ⟨.top { FieldType.ofKind (.text .short false) "AA" with length := 2 }
      .openSystem, .text .short false ⟨[0x78, 0x79], 2⟩⟩),
    .lob [7] [0]]

end Sample

theorem sample_reads_in_two_calls : ∃ d : Definition, d.Reached ∧
    (∀ t ∈ d.types, t.LobsPlain) ∧
    List.Forall₂ (Segment.Of .big (Sample.readAtMost 2)) (partsOfMembers d.values)
      Sample.segments ∧
    Sample.segments.flatMap (Segment.first .big 2) =
      [0, 0, 0, 5, 1, 2, 0x78, 0x79, 0, 0, 0, 1, 7, 0] ∧
    Sample.segments.flatMap (Segment.rest 2) = [3, 4, 5] ∧
    ∃ d₁ d₂, d.ReadsInTwoCalls (Sample.readAtMost 2) d₁ d₂ Sample.segments := by
  have reached := Reached.new (rfl : ofTypes .openSystem Sample.lobTypes = .ok _)
  have segments : List.Forall₂ (Segment.Of .big (Sample.readAtMost 2))
      (partsOfMembers (Sample.lobTypes.map (FieldType.fresh .openSystem))) Sample.segments :=
    .cons (.lob rfl (by decide) rfl) (.cons (.other rfl fun taken rest => rfl)
      (.cons (.lob rfl (by decide) rfl) .nil))
  exact ⟨_, reached, Sample.lobsPlain, segments, by decide, by decide,
    reads_in_two_calls reached Sample.lobsPlain rfl segments⟩

/-- The length of a request goes up to the largest word, so two texts of that size that are both
still to be read count as one. -/
theorem length_of_rest_saturates : ∃ (d d₁ : Definition) (ss : List Segment), d.Reached ∧
    (∀ t ∈ d.types, t.LobsPlain) ∧
    List.Forall₂ (Segment.Of .big (Sample.readAtMost 0)) (partsOfMembers d.values) ss ∧
    ss.flatMap (Segment.first .big 0) = List.replicate 8 0xFF ∧
    d.parse (Sample.readAtMost 0) (List.replicate 8 0xFF) = (d₁, .ok .read) ∧
    d₁.format ((Sample.readAtMost 0).atCall 1) =
      ("LA(1,4294967295),LB(1,4294967295).", 4294967295) ∧
    Token.totalLength (Segment.restTokens 0 (partsOfMembers d.values) ss) = 8589934590 := by
  have reached := Reached.new (rfl : ofTypes .openSystem
    [.ofKind (.text .large false) "LA", .ofKind (.text .large false) "LB"] = .ok _)
  obtain ⟨payload, size⟩ : ∃ payload : List UInt8, payload.length = 4294967295 :=
    ⟨List.replicate _ 0, List.length_replicate⟩
  have segment : ∀ l : Leaf, l.place.type.isLob = true →
      Segment.Of .big (Sample.readAtMost 0) (.leaf l) (.lob payload []) := fun l lob =>
    .lob lob (by rw [size]; decide) (Nat.zero_sub _).symm
  have first : Segment.first .big 0 (.lob payload []) = List.replicate 4 0xFF := by
    rw [Segment.first, size, List.take_zero]
    rfl
  have token : ∀ name, Segment.token? 0 name (.lob payload []) =
      some (.ofPart name 1 4294967295) := by
    intro name
    rw [Segment.token?, size]
    rfl
  refine ⟨_, _, [.lob payload [], .lob payload []], reached, ?_,
    .cons (segment _ rfl) (.cons (segment _ rfl) .nil), ?_, rfl, ?_, ?_⟩
  · exact List.forall_mem_cons.mpr ⟨⟨by decide, by decide⟩,
      List.forall_mem_singleton.mpr ⟨by decide, by decide⟩⟩
  · rw [List.flatMap_cons, List.flatMap_singleton, first]
    rfl
  · decide +kernel
  · show Token.totalLength ([(_, _), (_, _)].filterMap _) = _
    simp only [List.filterMap_cons, token, List.filterMap_nil]
    rfl

end Definition

end RecordCodec
