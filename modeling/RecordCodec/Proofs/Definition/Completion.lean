import Mathlib.Data.Nat.Find
import RecordCodec.Libraries.Standard
import RecordCodec.Proofs.Definition.ChunkedStore
import RecordCodec.Proofs.Definition.Parts

/-!
Large texts when a request is complete. The calls of a request move every text outside of repeated
fields as a whole. A repeated field takes part in the first call alone, so that a text in it has to
fit into that call.
-/
namespace RecordCodec

theorem TextField.complete_of_parse_later {p : Place} {size : TextSize} {r : Request}
    {c c' : TextContent} {q : ByteQueue} {progress : Progress} (later : r.isFollowUp = true)
    (h : TextField.parse p size r c q = (c', .ok progress)) :
    isIncomplete p size c' = false ∧ progress.followUp = .none := by
  rw [parse, if_pos later] at h
  split at h
  · unfold readRest at h
    split at h
    · cases h
    · dsimp only at h
      split at h
      · rename_i whole
        cases h
        refine ⟨?_, rfl⟩
        rw [isIncomplete, whole, decide_eq_false (Nat.lt_irrefl _), Bool.and_false]
      · cases h
  · rename_i complete
    cases h
    exact ⟨Bool.eq_false_iff.mpr complete, rfl⟩

namespace Leaf

variable {order : ByteOrder} {r : Request} {l : Leaf}

theorem bytes_of_store_ranged (typed : l.Typed) (lob : l.place.type.isLob = true)
    (other : l.isPieced = false) {c : Chunk} (first : l.store order (r.atCall 0) = .ok c) :
    c.bytes = l.bytes := by
  obtain ⟨p, unicode, t, rfl, -⟩ := exists_lob typed lob
  cases range : p.type.partialRange with
  | none => simp [isPieced, range, show p.type.isLob = true from lob] at other
  | some range' =>
    simp only [store, TextField.store, range, Request.isFollowUp_atCall_zero, Bool.false_eq_true,
      if_false] at first
    split at first
    · cases first
    · cases first
      rfl

theorem complete_of_parse_later (later : r.isFollowUp = true) {l' : Leaf} {q : ByteQueue}
    {progress : Progress} (h : l.parse r q = (l', .ok progress)) :
    l'.isIncomplete = false ∧ progress.followUp = .none := by
  obtain ⟨p, content⟩ := l
  cases content with
  | text size unicode c =>
    obtain ⟨same, parsed⟩ := Prod.mk.inj h
    subst same
    exact TextField.complete_of_parse_later later (Prod.ext rfl parsed)
  | pseudo =>
    cases h
    exact ⟨rfl, rfl⟩
  | integer | octets | float | packed | unpacked | superDescriptor =>
    simp only [parse, later, if_true] at h
    cases h
    exact ⟨rfl, rfl⟩

end Leaf

namespace StoredField

variable {order : ByteOrder} {r : Request} {f : StoredField} {n : Nat}

def written (order : ByteOrder) (r : Request) (n : Nat) (f : StoredField) : List UInt8 :=
  (List.range n).flatMap fun k => f.bytes order (r.atCall k)

/-- A large text as a store writes it: its bytes, behind their length where they are one piece. -/
def transfer (order : ByteOrder) (r : Request) (f : StoredField) : List UInt8 :=
  if f.leaf.isPieced && decide (f.leaf.bytes.length ≤ r.chunk) then
    let payload := TextField.payload f.leaf.bytes
    order.encode 4 (payload.length + 4) ++ payload
  else f.leaf.bytes

theorem written_once (called : 0 < n) (later : ∀ k, f.bytes order (r.atCall (k + 1)) = []) :
    f.written order r n = f.bytes order (r.atCall 0) := by
  obtain ⟨m, rfl⟩ : ∃ m, n = m + 1 := ⟨n - 1, by omega⟩
  rw [written, List.range_succ_eq_map, List.flatMap_cons, List.flatMap_map]
  have none : (List.range m).flatMap (fun k => f.bytes order (r.atCall k.succ)) = [] :=
    List.flatMap_eq_nil_iff.mpr fun k _ => later k
  rw [none, List.append_nil]

end StoredField

namespace Value

/-- In a later call the texts of a list of parts are completed, repeated fields stay as they are,
and no other call is asked for. -/
theorem parseMembers_later {r : Request} (later : r.isFollowUp = true) {us us' : List Value}
    (flat : ∀ u ∈ us, u.Flat) {q : ByteQueue} {left : Remainder}
    (h : parseMembers r q us = (us', .ok left)) : left.followUp = .none ∧
      ∀ u ∈ us', (∃ l, u = leaf l ∧ l.isIncomplete = false) ∨ u ∈ us ∧ ∀ l, u ≠ leaf l := by
  induction us generalizing us' q left with
  | nil =>
    cases h
    refine ⟨rfl, ?_⟩
    intro u none
    cases none
  | cons u us ih =>
    obtain ⟨here, others⟩ := List.forall_mem_cons.mp flat
    rw [parseMembers] at h
    split at h
    · cases h
    · rename_i u' progress parsed
      split at h
      · cases h
      · rename_i us'' left' parsedRest
        cases h
        obtain ⟨noneRest, rest⟩ := ih others parsedRest
        have first : progress.followUp = .none ∧
            ((∃ l, u' = leaf l ∧ l.isIncomplete = false) ∨ u' = u ∧ ∀ l, u' ≠ leaf l) := by
          cases here with
          | leaf l =>
            obtain ⟨same, outcome⟩ := Prod.mk.inj parsed
            subst same
            obtain ⟨complete, none⟩ := Leaf.complete_of_parse_later later (Prod.ext rfl outcome)
            exact ⟨none, .inl ⟨_, rfl, complete⟩⟩
          | repeated p elements kind =>
            rw [parse, kind, later] at parsed
            cases parsed
            exact ⟨rfl, .inr ⟨rfl, fun l same => by cases same⟩⟩
        refine ⟨by rw [first.1, noneRest]; rfl, List.forall_mem_cons.mpr ⟨?_, fun v inside => ?_⟩⟩
        · rcases first.2 with complete | ⟨rfl, kind⟩
          · exact .inl complete
          · exact .inr ⟨List.mem_cons_self .., kind⟩
        · rcases rest v inside with complete | ⟨listed, kind⟩
          · exact .inl complete
          · exact .inr ⟨List.mem_cons_of_mem _ listed, kind⟩

end Value

namespace Definition

open Value (partsOfMembers walkMembers)

variable {r : Request} {d d' : Definition} {n k : Nat} {followUp : FollowUp}

/-- A store that starts comes to an end: the calls go on only while they reach bytes of a text. -/
theorem exists_storeRun (formed : d.WellFormed) (writes : r.store = true) {c : Chunk}
    (first : d.store (r.atCall 0) = .ok c) : ∃ n, d.StoreRun r n := by
  have stored := store_atCall formed writes first
  have done : ∃ k, d.storedFields.any (StoredField.pending r k) = false := by
    refine ⟨d.storeCalls r, List.any_eq_false.mpr fun f inside pending => ?_⟩
    simp only [StoredField.pending, Leaf.isPieced, Bool.and_eq_true, decide_eq_true_eq] at pending
    have more := (lt_storeCalls (d.storeCalls r)).mpr ⟨f, inside, pending.1.1.1, pending.2⟩
    omega
  refine ⟨Nat.find done + 1, Nat.succ_pos _, fun k called => ⟨_, stored k, ?_⟩⟩
  cases more : d.storedFields.any (StoredField.pending r k) with
  | false =>
    have last := Nat.find_min' done more
    refine ⟨fun same => ?_, fun before => ?_⟩
    · cases same
    · omega
  | true =>
    have other : k ≠ Nat.find done := by
      rintro rfl
      cases more.symm.trans (Nat.find_spec done)
    exact ⟨fun _ => by omega, fun _ => rfl⟩

theorem StoreRun.not_pending (run : d.StoreRun r n) (formed : d.WellFormed)
    (writes : r.store = true) : ∀ f ∈ d.storedFields, f.pending r (n - 1) = false := by
  obtain ⟨first, stored, -⟩ := run.calls 0 run.called
  obtain ⟨last, stored', stops⟩ := run.calls (n - 1) (by have := run.called; omega)
  have same := Except.ok.inj (stored'.symm.trans (store_atCall formed writes stored (n - 1)))
  intro f inside
  apply Bool.eq_false_iff.mpr
  intro pending
  have any : d.storedFields.any (StoredField.pending r (n - 1)) = true :=
    List.any_eq_true.mpr ⟨f, inside, pending⟩
  have more : n - 1 + 1 < n := stops.mp (by rw [same, any]; rfl)
  omega

theorem StoreRun.written_lob (run : d.StoreRun r n) (formed : d.WellFormed)
    (writes : r.store = true) {f : StoredField} (inside : f ∈ d.storedFields)
    (lob : f.leaf.place.type.isLob = true)
    (fits : f.leaf.isPieced = true → f.repeated = true → f.leaf.bytes.length ≤ r.chunk) :
    f.written d.platform.byteOrder r n = f.transfer d.platform.byteOrder r := by
  have typed := typed_storedFields formed f inside
  obtain ⟨first, stored, -⟩ := run.calls 0 run.called
  obtain ⟨c, chunk⟩ := StoredField.ok_of_storeAll
    ((store_eq (r := r.atCall 0) writes d).symm.trans stored) f inside
  cases pieced : f.leaf.isPieced with
  | false =>
    have whole := StoredField.chunk_first.symm.trans chunk
    rw [StoredField.written_once run.called (StoredField.bytes_other typed pieced chunk),
      StoredField.bytes_of chunk, Leaf.bytes_of_store_ranged typed lob pieced whole,
      StoredField.transfer, pieced]
    rfl
  | true =>
    by_cases short : f.leaf.bytes.length ≤ r.chunk
    · rw [StoredField.written_once run.called (StoredField.bytes_short typed pieced short),
        StoredField.bytes_of (StoredField.chunk_first.trans
          (Leaf.store_short (r := r.atCall 0) typed pieced short)),
        StoredField.transfer, pieced, decide_eq_true short]
      exact ByteOrder.frame_variable
    · have plain : f.repeated = false :=
        Bool.eq_false_iff.mpr fun within => short (fits pieced within)
      have long : r.chunk < f.leaf.bytes.length := Nat.lt_of_not_le short
      -- the run goes on while chunks are left, so its calls reach the end of the text
      have all : f.leaf.bytes.length ≤ n * r.chunk := by
        have done := run.not_pending formed writes f inside
        have called := run.called
        apply Nat.le_of_not_lt
        intro more
        have pending := (StoredField.pending_plain (k := n - 1) pieced plain).mpr
          (by rwa [Nat.sub_add_cancel called])
        cases done.symm.trans pending
      rw [StoredField.written, StoredField.transfer, pieced, decide_eq_false short]
      simp only [StoredField.bytes_long typed pieced plain long, flatMap_chunks]
      exact List.take_of_length_le all

/-- The calls of a read up to number `k`, each with a record. All of them succeed, and each but the
last one asks for another. -/
inductive ReadRun (r : Request) (d : Definition) : Nat → Definition → FollowUp → Prop where
  | first {record : List UInt8} {d' : Definition} {followUp : FollowUp}
      (read : d.parse (r.atCall 0) record = (d', .ok followUp)) : ReadRun r d 0 d' followUp
  | next {k : Nat} {record : List UInt8} {d' d'' : Definition} {followUp : FollowUp}
      (run : ReadRun r d k d' .read)
      (read : d'.parse (r.atCall (k + 1)) record = (d'', .ok followUp)) :
      ReadRun r d (k + 1) d'' followUp

theorem ReadRun.reached [Libraries] (run : d.ReadRun r k d' followUp) (reached : d.Reached) :
    d'.Reached := by
  induction run with
  | first read => exact reached.of_parse read
  | next _ read ih => exact ih.of_parse read

theorem flat_parts (formed : d.WellFormed) : ∀ u ∈ partsOfMembers d.values, u.Flat := by
  intro u inside
  obtain ⟨t, -, kept, -, single, -⟩ := formed.of_mem_parts inside
  exact kept.flat single

section

variable [Libraries]

theorem ReadRun.eq_zero (run : d.ReadRun r k d' .read) (reached : d.Reached) : k = 0 := by
  cases run with
  | first => rfl
  | next run read =>
    obtain ⟨left, parsed, need⟩ := parseMembers_of_parse read
    have none := (Value.parseMembers_later (Request.isFollowUp_atCall_succ r _)
      (flat_parts (run.reached reached).wellFormed) parsed).1
    cases need.symm.trans none

/-- The texts of a definition between the calls of a read. -/
structure Fetched (r : Request) (d : Definition) (followUp : FollowUp) : Prop where
  large : ∀ l, .leaf l ∈ walkMembers (partsOfMembers d.values) → l.isIncomplete = true →
    ∀ n, l.announced? = some n → l.firstSize r < n
  complete : followUp ≠ .read → ∀ l, .leaf l ∈ partsOfMembers d.values →
    l.place.type.partialRange = none → l.isIncomplete = false

/-- Every call keeps this up: the first one asks for another if a text is left, and a later one
completes all texts outside of repeated fields. -/
theorem ReadRun.fetched (run : d.ReadRun r k d' followUp) (reached : d.Reached) :
    d'.Fetched r followUp := by
  induction run with
  | @first record d' followUp read =>
    obtain ⟨left, parsed, rfl⟩ := parseMembers_of_parse read
    have started := Value.started_parseMembers (Request.isFollowUp_atCall_zero r) _ parsed
    -- a text that was left would have made this call ask for another one
    refine ⟨started.large, fun stops l inside whole => ?_⟩
    apply Bool.eq_false_iff.mpr
    intro incomplete
    have lacks : (Value.leaf l).lacks = true := by
      show (l.place.type.partialRange.isNone && l.isIncomplete) = true
      rw [whole, incomplete]
      rfl
    have any : (walkMembers (partsOfMembers d'.values)).any Value.lacks = true :=
      List.any_eq_true.mpr ⟨_, Value.mem_walkMembers.mpr ⟨_, inside, Value.mem_walk_self _⟩, lacks⟩
    exact stops (started.need.trans (if_pos any))
  | @next k record d' d'' followUp run read ih =>
    obtain ⟨left, parsed, -⟩ := parseMembers_of_parse read
    -- the call ends with every text of its own complete and every repeated field as it was, so only
    -- texts in repeated fields still rely on the induction
    have later := (Value.parseMembers_later (Request.isFollowUp_atCall_succ r k)
      (flat_parts (run.reached reached).wellFormed) parsed).2
    constructor
    · intro l inside incomplete
      obtain ⟨u, part, deep⟩ := Value.mem_walkMembers.mp inside
      rcases later u part with ⟨l', rfl, complete⟩ | ⟨kept, -⟩
      · cases List.mem_singleton.mp deep
        cases complete.symm.trans incomplete
      · exact ih.large l (Value.mem_walkMembers.mpr ⟨u, kept, deep⟩) incomplete
    · intro _ l inside _
      rcases later _ inside with ⟨l', same, complete⟩ | ⟨-, kind⟩
      · cases same
        exact complete
      · exact absurd rfl (kind l)

/-- What a complete store of a definition in `n` calls has written. -/
structure StoresLobs (r : Request) (d : Definition) (n : Nat) : Prop where
  fields : ∀ v ∈ d.values, v.Unflagged → ∀ l, .leaf l ∈ v.walk → ∃ f ∈ d.storedFields, f.leaf = l
  whole : ∀ f ∈ d.storedFields, f.leaf.place.type.isLob = true →
    (f.leaf.isPieced = true → f.repeated = true → f.leaf.bytes.length ≤ r.chunk) →
    f.written d.platform.byteOrder r n = f.transfer d.platform.byteOrder r

structure ReadsLobs (r : Request) (d : Definition) : Prop where
  outside : ∀ l, .leaf l ∈ partsOfMembers d.values → l.place.type.partialRange = none →
    l.isIncomplete = false
  small : ∀ l, .leaf l ∈ walkMembers d.values → ∀ n, l.announced? = some n → n ≤ l.firstSize r →
    l.isIncomplete = false

/-- Requests come to an end, and then every large text is complete that stands outside of repeated
fields or fits into the first call. -/
theorem lobs_complete (reached : d.Reached) :
    (r.store = true → (∀ c, d.store (r.atCall 0) = .ok c → ∃ n, d.StoreRun r n) ∧
      ∀ n, d.StoreRun r n → d.StoresLobs r n) ∧
    ∀ k d' followUp, d.ReadRun r k d' followUp →
      (followUp = .read → k = 0) ∧ (followUp ≠ .read → d'.ReadsLobs r) := by
  have formed := reached.wellFormed
  constructor
  · intro writes
    refine ⟨fun c first => exists_storeRun formed writes first, fun n run => ?_⟩
    exact ⟨fun v listed unflagged l => storedFields_of_walk formed listed unflagged,
      fun f => run.written_lob formed writes⟩
  · intro k d' followUp run
    constructor
    · rintro rfl
      exact run.eq_zero reached
    · intro stops
      have fetched := run.fetched reached
      refine ⟨fetched.complete stops, fun l inside n size small => ?_⟩
      apply Bool.eq_false_iff.mpr
      intro incomplete
      have parted := (run.reached reached).wellFormed.mem_walk_parts inside
      have large := fetched.large l parted incomplete n size
      omega

end

namespace Sample

def valuesTypes : List FieldType :=
  [.ofKind (.text .large false) "LA", .multiple (.ofKind (.text .large false) "LB")]

def inPieces (store : Bool) : Request :=
  { Request.ofCall store 0 with partialSize := 2, chunkSize := 2 }

theorem storeRun_two {bytes bytes' : List UInt8}
    (first : d.store (r.atCall 0) = .ok ⟨bytes, .store⟩)
    (second : d.store (r.atCall 1) = .ok ⟨bytes', .none⟩) : d.StoreRun r 2 := by
  refine ⟨by decide, fun k called => ?_⟩
  match k, called with
  | 0, _ => exact ⟨_, first, by simp⟩
  | 1, _ => exact ⟨_, second, by simp⟩

end Sample

/-- A text of three bytes takes two calls; one of a single byte in a repeated field fits into the
first. -/
theorem sample_lobs_complete : ∃ d d' : Definition, d.Reached ∧
    d.store ((Sample.inPieces true).atCall 0) = .ok ⟨[1, 2, 0, 0, 0, 5, 9], .store⟩ ∧
    d.StoreRun (Sample.inPieces true) 2 ∧ d.StoresLobs (Sample.inPieces true) 2 ∧
    d.ReadRun (Sample.inPieces false) 1 d' .none ∧ d'.ReadsLobs (Sample.inPieces false) := by
  obtain ⟨d, d₁, d', reached, first, second, readFirst, readSecond⟩ : ∃ d d₁ d' : Definition,
      d.Reached ∧
      d.store ((Sample.inPieces true).atCall 0) = .ok ⟨[1, 2, 0, 0, 0, 5, 9], .store⟩ ∧
      d.store ((Sample.inPieces true).atCall 1) = .ok ⟨[3], .none⟩ ∧
      d.parse ((Sample.inPieces false).atCall 0)
        [0, 0, 0, 3, 1, 2, 0, 0, 0, 1, 0, 0, 0, 1, 9, 0] = (d₁, .ok .read) ∧
      d₁.parse ((Sample.inPieces false).atCall 1) [3] = (d', .ok .none) := by
    have reached := Reached.changed (.assigned (.new (rfl : ofTypes .openSystem
      Sample.valuesTypes = .ok _)) "LA" (.bytes [1, 2, 3]) rfl) "LB" [] (.push (.bytes [9])) rfl
    exact ⟨_, _, _, reached, rfl, rfl, rfl, rfl⟩
  have stored := Sample.storeRun_two first second
  have read : d.ReadRun (Sample.inPieces false) 1 d' .none := .next (.first readFirst) readSecond
  exact ⟨d, d', reached, first, stored, ((lobs_complete reached).1 rfl).2 2 stored, read,
    ((lobs_complete reached).2 1 d' .none read).2 (by decide)⟩

/-- A text of three bytes in a repeated field: a store asks for a second call, which writes nothing
of it, and a read for a second call, which does not complete it. -/
theorem repeated_lob_incomplete : ∃ d d' : Definition, d.Reached ∧
    d.StoreRun (Sample.inPieces true) 2 ∧
    d.storedFields.map (fun f => f.leaf.bytes) = [[1, 2, 3]] ∧
    d.storedFields.map (StoredField.written .big (Sample.inPieces true) 2) = [[1, 2]] ∧
    d.ReadRun (Sample.inPieces false) 1 d' .none ∧
    (walkMembers d'.values).any Value.lacks = true := by
  have reached := Reached.changed (.new (rfl : ofTypes .openSystem
    [.multiple (.ofKind (.text .large false) "LB")] = .ok _)) "LB" [] (.push (.bytes [1, 2, 3])) rfl
  exact ⟨_, _, reached, @Sample.storeRun_two _ _ [1, 2] [] rfl rfl, rfl, rfl,
    @ReadRun.next _ _ 0 [3] _ _ .none
      (@ReadRun.first _ _ [0, 0, 0, 1, 0, 0, 0, 3, 1, 2] _ .read rfl) rfl, rfl⟩

end Definition

end RecordCodec
