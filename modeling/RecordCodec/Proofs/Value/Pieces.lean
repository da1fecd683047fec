import RecordCodec.Proofs.Request
import RecordCodec.Proofs.Value.Walk

/-!
Large texts, which move in pieces, and those of them that miss bytes after the first call of a read.
The call asks for another one exactly when it leaves such a text, and only texts of more bytes than
it fetches are left so.
-/
namespace RecordCodec

/-- Large texts stand outside of repeated fields, and none of them is restricted to a range. -/
structure FieldType.LobsPlain (t : FieldType) : Prop where
  whole : ∀ u ∈ t.walk, u.isLob = true → u.partialRange = none
  outside : ∀ u ∈ t.walk, u.kind.isRepeated = true → ∀ m ∈ walkAll u.children, m.isLob = false

namespace Sample

def lobTypes : List FieldType :=
  [.ofKind (.text .large false) "LA",
    .group "GR" [{ FieldType.ofKind (.text .short false) "AA" with length := 2 },
      .ofKind (.text .large false) "LB"]]

theorem lobsPlain : ∀ t ∈ lobTypes, t.LobsPlain := by
  intro t listed
  simp only [lobTypes, List.mem_cons, List.not_mem_nil, or_false] at listed
  rcases listed with rfl | rfl
  · exact ⟨by decide, by decide⟩
  · exact ⟨by decide, by decide⟩

end Sample

theorem Place.part_plain {p : Place} (periodic : p.periodicIndex = 0)
    (multiple : p.multipleIndex = 0) (first length : Nat) :
    p.part first length = .ofPart p.shortName first length := by
  simp [part, partText, indexText, periodic, multiple, Token.ofPart]
  rfl

theorem TextField.isIncomplete_whole (p : Place) (size : TextSize) (bytes : List UInt8) :
    isIncomplete p size (.whole bytes) = false := by
  have counted : ¬ bytes.length < bytes.length % UInt32.size := Nat.not_lt.mpr (Nat.mod_le _ _)
  rw [isIncomplete, TextContent.whole, decide_eq_false counted, Bool.and_false]

namespace Leaf

/-- A text that moves in pieces: large, of variable length and not restricted to a range. -/
def isPieced (l : Leaf) : Bool :=
  l.place.type.isLob && l.place.type.partialRange.isNone

theorem exists_text {l : Leaf} {size : TextSize} {unicode : Bool} (typed : l.Typed)
    (kind : l.place.type.kind = .text size unicode) : ∃ p c, l = ⟨p, .text size unicode c⟩ := by
  obtain ⟨p, content⟩ := l
  have shape := Content.IsOf.of_kind typed
  rw [kind] at shape
  obtain ⟨c, rfl⟩ := shape
  exact ⟨p, c, rfl⟩

theorem exists_lob {l : Leaf} (typed : l.Typed) (lob : l.place.type.isLob = true) :
    ∃ p unicode c, l = ⟨p, .text .large unicode c⟩ ∧ TextField.isLob p .large = true := by
  have large := lob
  unfold FieldType.isLob at large
  split at large
  · rename_i unicode kind
    obtain ⟨p, c, rfl⟩ := exists_text typed kind
    exact ⟨p, unicode, c, rfl, (TextField.isLob_of_kind typed).trans lob⟩
  · cases large

theorem exists_pieced {l : Leaf} (typed : l.Typed) (pieced : l.isPieced = true) :
    ∃ p unicode c, l = ⟨p, .text .large unicode c⟩ ∧ TextField.isLob p .large = true ∧
      p.type.partialRange = none := by
  obtain ⟨lob, whole⟩ := Bool.and_eq_true_iff.mp pieced
  obtain ⟨p, unicode, c, rfl, large⟩ := exists_lob typed lob
  exact ⟨p, unicode, c, rfl, large, by simpa using whole⟩

/-- A text that does not move in pieces is restricted to a range or no large one of variable
length. -/
theorem range_or_small {p : Place} {size : TextSize} {unicode : Bool} {c : TextContent}
    (typed : Typed ⟨p, .text size unicode c⟩) (other : isPieced ⟨p, .text size unicode c⟩ = false) :
    (∃ range, p.type.partialRange = some range) ∨
      p.type.partialRange = none ∧ TextField.isLob p size = false := by
  rw [isPieced, ← TextField.isLob_of_kind typed] at other
  cases restricted : p.type.partialRange with
  | some range => exact .inl ⟨range, rfl⟩
  | none => exact .inr ⟨rfl, by simpa [restricted] using other⟩

theorem token_other {r : Request} {l : Leaf} (typed : l.Typed) (other : l.isPieced = false)
    (later : r.isFollowUp = true) : l.token? r = none := by
  obtain ⟨p, content⟩ := l
  cases content with
  | text size unicode t =>
    obtain ⟨range, restricted⟩ | ⟨whole, small⟩ := range_or_small typed other
    · simp [token?, TextField.token?, restricted, later]
    · simp [token?, TextField.token?, whole, small, Place.wholeToken?, later]
  | pseudo => rfl
  | integer | octets | float | packed | unpacked | superDescriptor =>
    simp [token?, Place.wholeToken?, later]

def isIncomplete (l : Leaf) : Bool :=
  match l.content with
  | .text size _ c => TextField.isIncomplete l.place size c
  | _ => false

def firstSize (r : Request) (l : Leaf) : Nat :=
  match l.place.type.partialRange with
  | some range => range.length
  | none => r.partialSize

def lacks (l : Leaf) : Bool :=
  l.place.type.partialRange.isNone && l.isIncomplete

end Leaf

namespace Value

def lacks : Value → Bool
  | leaf l => l.lacks
  | node _ _ => false

def need (vs : List Value) : FollowUp :=
  if vs.any lacks then .read else .none

theorem need_append (us vs : List Value) : need (us ++ vs) = (need us).join (need vs) := by
  rw [need, need, need, List.any_append]
  cases us.any lacks <;> cases vs.any lacks <;> rfl

/-- Values as a first call leaves them with this outcome. -/
structure Started (r : Request) (vs : List Value) (followUp : FollowUp) : Prop where
  need : followUp = need vs
  large : ∀ l, leaf l ∈ vs → l.isIncomplete = true → ∀ n, l.announced? = some n →
    l.firstSize r < n

variable {r : Request}

theorem started_nil : Started r [] .none where
  need := rfl
  large := by
    intro l none
    cases none

theorem Started.append {us vs : List Value} {a b : FollowUp} (first : Started r us a)
    (later : Started r vs b) : Started r (us ++ vs) (a.join b) where
  need := by rw [need_append, first.need, later.need]
  large := by
    intro l inside
    rcases List.mem_append.mp inside with here | there
    · exact first.large l here
    · exact later.large l there

theorem Started.node {p : Place} {elements : List (List Value)} {followUp : FollowUp}
    (started : Started r (walkElements elements) followUp) :
    Started r (Value.node p elements).walk followUp where
  need := started.need
  large := by
    intro l inside
    rcases List.mem_cons.mp inside with same | deep
    · cases same
    · exact started.large l deep

theorem started_whole {l : Leaf} (whole : l.isIncomplete = false) : Started r [leaf l] .none where
  need := by simp [Value.need, lacks, Leaf.lacks, whole]
  large := by
    intro l' inside lacking
    cases List.mem_singleton.mp inside
    cases whole.symm.trans lacking

/-- A text restricted to a range is left incomplete only if it was longer before. -/
theorem started_ranged {p : Place} {size : TextSize} (unicode : Bool) {c : TextContent}
    {range : PartialRange} (restricted : p.type.partialRange = some range) {bytes : List UInt8}
    {q q' : ByteQueue} (taken : q.take range.length = .ok (bytes, q')) :
    Started r [leaf ⟨p, .text size unicode ⟨bytes, c.announced⟩⟩] .none where
  need := by simp [Value.need, lacks, Leaf.lacks, restricted]
  large := by
    intro l inside incomplete n size
    cases List.mem_singleton.mp inside
    cases size
    have more : bytes.length < c.announced :=
      of_decide_eq_true (Bool.and_eq_true_iff.mp incomplete).2
    rw [ByteQueue.length_take taken] at more
    rw [Leaf.firstSize, restricted]
    exact more

/-- The first call of a large text takes all of it, or asks for more. -/
theorem started_readStart {p : Place} {size : TextSize} (unicode : Bool)
    (whole : p.type.partialRange = none) (lob : TextField.isLob p size = true)
    {c c' : TextContent} {q : ByteQueue} {progress : Progress}
    (h : TextField.readStart r c q = (c', .ok progress)) :
    Started r [leaf ⟨p, .text size unicode c'⟩] progress.followUp := by
  unfold TextField.readStart at h
  split at h
  · cases h
  · rename_i announced q' counted
    split at h
    · cases h
    · rename_i bytes q'' taken
      have length : bytes.length = r.partialSize := ByteQueue.length_take taken
      split at h
      · rename_i short
        cases h
        refine started_whole ?_
        simp [Leaf.isIncomplete, TextField.isIncomplete, List.length_take, short]
      · rename_i long
        cases h
        have more : bytes.length < announced := Nat.lt_of_not_le long
        constructor
        · simp [Value.need, lacks, Leaf.lacks, whole, Leaf.isIncomplete,
            TextField.isIncomplete, lob, more]
        · intro l inside _ n size
          cases List.mem_singleton.mp inside
          cases size
          rw [Leaf.firstSize, whole]
          show r.partialSize < announced
          omega

theorem started_text {p : Place} {size : TextSize} (unicode : Bool) {c c' : TextContent}
    {q : ByteQueue} {progress : Progress} (first : r.isFollowUp = false)
    (h : TextField.parse p size r c q = (c', .ok progress)) :
    Started r [leaf ⟨p, .text size unicode c'⟩] progress.followUp := by
  rw [TextField.parse, first] at h
  simp only [Bool.false_eq_true, if_false] at h
  split at h
  · rename_i range restricted
    split at h
    · cases h
    · rename_i bytes q' taken
      cases h
      exact started_ranged unicode restricted taken
  · rename_i whole
    split at h
    · rename_i lob
      exact started_readStart unicode whole lob h
    · split at h
      · cases h
      · cases h
        exact started_whole (TextField.isIncomplete_whole p size _)

theorem started_leaf {l l' : Leaf} {q : ByteQueue} {progress : Progress}
    (first : r.isFollowUp = false) (h : l.parse r q = (l', .ok progress)) :
    Started r [leaf l'] progress.followUp := by
  obtain ⟨p, content⟩ := l
  cases content with
  | text size unicode c =>
    obtain ⟨same, parsed⟩ := Prod.mk.inj h
    subst same
    exact started_text unicode first (Prod.ext rfl parsed)
  | pseudo =>
    cases h
    exact started_whole (by simp [Leaf.isIncomplete])
  | integer | octets | float | packed | unpacked | superDescriptor =>
    simp only [Leaf.parse, first, Bool.false_eq_true, if_false] at h
    split at h
    · cases h
    · rename_i content q' read
      cases h
      obtain ⟨x, -, same⟩ := Outcome.map_ok.mp read
      cases same
      exact started_whole (by simp [Leaf.isIncomplete])

end Value

namespace FieldType

open Value (Started started_nil started_leaf walk walkMembers walkElements)

variable {r : Request}

theorem started_readOccurrences
    {read : Nat → ByteQueue → Except FieldFault (List Value × Remainder)}
    (each : ∀ index q element left, read index q = .ok (element, left) →
      Started r (walkMembers element) left.followUp) {count index : Nat} {q : ByteQueue}
    {elements : List (List Value)} {left : Remainder}
    (h : readOccurrences read count index q = .ok (elements, left)) :
    Started r (walkElements elements) left.followUp := by
  induction count generalizing index q elements left with
  | zero =>
    cases h
    exact started_nil
  | succ count ih =>
    obtain ⟨⟨first, after⟩, readFirst, h⟩ := Outcome.bind_ok.mp h
    obtain ⟨⟨others, left'⟩, readOthers, h⟩ := Outcome.bind_ok.mp h
    cases h
    exact (each _ _ _ _ readFirst).append (ih readOthers)

theorem started_readElements {p : Place} {q : ByteQueue}
    {read : Nat → ByteQueue → Except FieldFault (List Value × Remainder)}
    (each : ∀ index q element left, read index q = .ok (element, left) →
      Started r (walkMembers element) left.followUp) {elements : List (List Value)}
    {left : Remainder} (h : p.readElements q read = .ok (elements, left)) :
    Started r (walkElements elements) left.followUp := by
  unfold Place.readElements at h
  split at h
  · cases h
  · exact started_readOccurrences (fun k => each (p.type.occurrence.number k)) h

theorem started_readAt_leaf {platform : Platform} {i j : Nat} {q : ByteQueue} {t : FieldType}
    {v : Value} {left : Remainder} (first : r.isFollowUp = false)
    (flat : t.kind.isStructure = false) (h : t.readAt r platform i j q = .ok (v, left)) :
    Started r v.walk left.followUp := by
  rw [readAt_leaf flat] at h
  split at h
  · cases h
  · rename_i l progress parsed
    cases h
    exact started_leaf first parsed

mutual

theorem started_readAt {platform : Platform} {i j : Nat} {q : ByteQueue} {t : FieldType}
    {v : Value} {left : Remainder} (first : r.isFollowUp = false)
    (h : t.readAt r platform i j q = .ok (v, left)) : Started r v.walk left.followUp := by
  match t with
  | ⟨kind, shortName, name, length, fraction, options, flags, charset, part, children, occurrence,
      superEntries⟩ =>
    cases kind with
    | group =>
      obtain ⟨⟨members, left'⟩, read, h⟩ := Outcome.bind_ok.mp h
      cases h
      have started := started_readMembers first read
      refine .node ?_
      rw [walkElements, walkElements, List.append_nil]
      exact started
    | periodicGroup | multiple =>
      unfold readAt at h
      simp only [first, Bool.false_eq_true, if_false] at h
      obtain ⟨⟨elements, left'⟩, read, h⟩ := Outcome.bind_ok.mp h
      cases h
      exact .node (started_readElements (fun _ _ _ _ => started_readMembers first) read)
    | binary | octets | float | packed | unpacked | text | superDescriptor | pseudo =>
      exact started_readAt_leaf first (by rfl) h

theorem started_readMembers {platform : Platform} {i j : Nat} {q : ByteQueue}
    {types : List FieldType} {vs : List Value} {left : Remainder} (first : r.isFollowUp = false)
    (h : readMembers r platform i j q types = .ok (vs, left)) :
    Started r (walkMembers vs) left.followUp := by
  match types with
  | [] =>
    cases h
    exact started_nil
  | t :: rest =>
    obtain ⟨⟨v, after⟩, readFirst, h⟩ := Outcome.bind_ok.mp h
    obtain ⟨⟨others, left'⟩, readOthers, h⟩ := Outcome.bind_ok.mp h
    cases h
    exact (started_readAt first readFirst).append (started_readMembers first readOthers)

end

end FieldType

namespace Value

variable {r : Request}

mutual

theorem started_parse (first : r.isFollowUp = false) (q : ByteQueue) {v v' : Value}
    {progress : Progress} (h : v.parse r q = (v', .ok progress)) :
    Started r v'.walk progress.followUp := by
  match v with
  | leaf l =>
    obtain ⟨same, parsed⟩ := Prod.mk.inj h
    subst same
    exact started_leaf first (Prod.ext rfl parsed)
  | node p elements =>
    rw [parse, first] at h
    split at h
    · split at h
      · cases h
      · rename_i elements' left parsed
        cases h
        exact .node (started_parseElements first q parsed)
    · simp only [Bool.false_eq_true, if_false] at h
      split at h
      · cases h
      · rename_i elements' left read
        cases h
        exact .node (FieldType.started_readElements
          (fun _ _ _ _ => FieldType.started_readMembers first) read)

theorem started_parseElements (first : r.isFollowUp = false) (q : ByteQueue)
    {elements elements' : List (List Value)} {left : Remainder}
    (h : parseElements r q elements = (elements', .ok left)) :
    Started r (walkElements elements') left.followUp := by
  match elements with
  | [] =>
    cases h
    exact started_nil
  | element :: rest =>
    rw [parseElements] at h
    split at h
    · cases h
    · rename_i element' after parsed
      split at h
      · cases h
      · rename_i rest' left' parsedRest
        cases h
        exact (started_parseMembers first q parsed).append
          (started_parseElements first after.queue parsedRest)

theorem started_parseMembers (first : r.isFollowUp = false) (q : ByteQueue)
    {vs vs' : List Value} {left : Remainder} (h : parseMembers r q vs = (vs', .ok left)) :
    Started r (walkMembers vs') left.followUp := by
  match vs with
  | [] =>
    cases h
    exact started_nil
  | v :: rest =>
    rw [parseMembers] at h
    split at h
    · cases h
    · rename_i v' progress parsed
      split at h
      · cases h
      · rename_i rest' left' parsedRest
        cases h
        exact (started_parse first q parsed).append
          (started_parseMembers first progress.queue parsedRest)

end

end Value

end RecordCodec
