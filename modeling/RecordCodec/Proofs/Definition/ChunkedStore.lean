import Mathlib.Order.MinMax
import RecordCodec.Libraries.Standard
import RecordCodec.Proofs.Definition.Reached
import RecordCodec.Proofs.Value.Counted
import RecordCodec.Proofs.Value.Stored

/-!
Large texts in the calls of a store. Each call writes the next chunk of every text that is longer
than a chunk; shorter texts and all other fields go with the first call.
-/
namespace RecordCodec

namespace TextField

/-- A chunk is the next bytes of a text, as many as there are, and another call is needed while
bytes are left behind it. -/
theorem storeChunk_eq (r : Request) (bytes : List UInt8) : storeChunk r bytes =
    ⟨(bytes.drop (r.call * r.chunk)).take r.chunk,
      if (r.call + 1) * r.chunk < bytes.length then .store else .none⟩ := by
  have next : (r.call + 1) * r.chunk = r.call * r.chunk + r.chunk := Nat.succ_mul ..
  rw [storeChunk, next]
  dsimp only
  generalize r.call * r.chunk = start
  split
  · rename_i past
    rw [List.drop_eq_nil_of_le past, if_neg (by omega), List.take_nil]
    rfl
  · congr 1
    · rw [List.take_eq_take_iff, List.length_drop]
      omega
    · by_cases more : start + r.chunk < bytes.length
      · rw [if_pos more, if_pos (by omega)]
      · rw [if_neg more, if_neg (by omega)]

end TextField

namespace Leaf

variable {order : ByteOrder} {r : Request} {l : Leaf}

theorem store_long (typed : l.Typed) (pieced : l.isPieced = true)
    (long : r.chunk < l.bytes.length) :
    l.store order r = .ok (TextField.storeChunk r l.bytes) := by
  obtain ⟨p, unicode, c, rfl, lob, whole⟩ := exists_pieced typed pieced
  have longer : r.chunk < c.bytes.length := long
  simp [store, TextField.store, whole, lob, longer, bytes]

theorem store_short (typed : l.Typed) (pieced : l.isPieced = true)
    (short : l.bytes.length ≤ r.chunk) : l.store order r =
      .ok (if r.isFollowUp then .empty
        else .whole (order.frame 4 0 (TextField.payload l.bytes))) := by
  obtain ⟨p, unicode, c, rfl, lob, whole⟩ := exists_pieced typed pieced
  have shorter : ¬ r.chunk < c.bytes.length := Nat.not_lt.mpr short
  have fixed : p.type.length = 0 := by simpa [TextField.isLob] using lob
  have framed := TextField.storeWhole_eq order p .large c.bytes
  rw [fixed] at framed
  simp only [store, TextField.store, whole, shorter, decide_false, Bool.and_false, framed]
  cases r.isFollowUp <;> rfl

theorem store_other (typed : l.Typed) (other : l.isPieced = false) {c : Chunk}
    (first : l.store order (r.atCall 0) = .ok c) :
    c.followUp = .none ∧ ∀ k, l.store order (r.atCall (k + 1)) = .ok .empty := by
  obtain ⟨p, content⟩ := l
  cases content with
  | text size unicode t =>
    simp only [store, TextField.store, Request.isFollowUp_atCall_zero,
      Request.isFollowUp_atCall_succ] at first ⊢
    obtain ⟨range, restricted⟩ | ⟨whole, small⟩ := range_or_small typed other
    · simp only [restricted, Bool.false_eq_true, if_false] at first ⊢
      split at first
      · cases first
      · cases first
        exact ⟨rfl, fun k => rfl⟩
    · simp only [whole, small, Bool.false_and, Bool.false_eq_true, if_false] at first ⊢
      cases first
      exact ⟨rfl, fun k => rfl⟩
  | pseudo => cases first
  | integer | octets | float | packed | unpacked | superDescriptor =>
    cases first
    exact ⟨rfl, fun k => by simp [store]⟩

/-- A long text is announced by the number of its next byte, as long as that is a word. -/
theorem token_long (writes : r.store = true) (typed : l.Typed) (pieced : l.isPieced = true)
    (held : l.bytes.length < UInt32.size) (counts : r.call * r.chunk + 1 < UInt32.size)
    (long : r.chunk < l.bytes.length) : l.token? r =
      if r.call * r.chunk < l.bytes.length then some (l.place.part (r.call * r.chunk + 1)
        (min r.chunk (l.bytes.length - r.call * r.chunk))) else none := by
  obtain ⟨p, unicode, c, rfl, lob, whole⟩ := exists_pieced typed pieced
  have longer : ¬ c.bytes.length ≤ r.chunk := Nat.not_le.mpr long
  have held : c.bytes.length < UInt32.size := held
  simp only [token?, TextField.token?, whole, lob, writes, TextField.storeToken?, longer, bytes,
    Nat.mod_eq_of_lt counts]
  by_cases more : r.call * r.chunk < c.bytes.length
  · have left : c.bytes.length - (r.call * r.chunk + 1) + 1 =
        c.bytes.length - r.call * r.chunk := by
      omega
    have room : c.bytes.length - r.call * r.chunk < UInt32.size :=
      Nat.lt_of_le_of_lt (Nat.sub_le ..) held
    simp [more, Nat.not_le.mpr more, left, Nat.mod_eq_of_lt room]
  · simp [more, Nat.le_of_not_lt more]

theorem token_short (writes : r.store = true) (typed : l.Typed) (pieced : l.isPieced = true)
    (short : l.bytes.length ≤ r.chunk) : l.token? r =
      if r.isFollowUp then none else some ⟨l.place.tokenText, l.bytes.length + 4⟩ := by
  obtain ⟨p, unicode, c, rfl, lob, whole⟩ := exists_pieced typed pieced
  have shorter : c.bytes.length ≤ r.chunk := short
  simp [token?, TextField.token?, whole, lob, writes, TextField.storeToken?, shorter, bytes]

/-- A field that the first call stores is stored by every call. Another one is needed as long as
bytes of a text that moves in pieces are left. -/
theorem store_atCall (typed : l.Typed) {c : Chunk} (first : l.store order (r.atCall 0) = .ok c)
    (k : Nat) : ∃ c, l.store order (r.atCall k) = .ok c ∧ c.followUp =
      if l.isPieced && decide ((k + 1) * r.chunk < l.bytes.length) then .store else .none := by
  cases pieced : l.isPieced with
  | true =>
    by_cases long : r.chunk < l.bytes.length
    · refine ⟨_, store_long typed pieced long, ?_⟩
      simp only [TextField.storeChunk_eq, Bool.true_and, decide_eq_true_eq]
      rfl
    · have past : ¬ (k + 1) * r.chunk < l.bytes.length := by
        rw [Nat.succ_mul]
        omega
      refine ⟨_, store_short typed pieced (Nat.le_of_not_lt long), ?_⟩
      simp only [past, decide_false, Bool.and_false]
      cases (r.atCall k).isFollowUp <;> rfl
  | false =>
    obtain ⟨none, later⟩ := store_other typed pieced first
    cases k with
    | zero => exact ⟨c, first, none⟩
    | succ k => exact ⟨_, later k, rfl⟩

end Leaf

namespace StoredField

variable {order : ByteOrder} {r : Request} {f : StoredField}

/-- Whether call `k` of a store leaves bytes of the field that are still to be stored. -/
def pending (r : Request) (k : Nat) (f : StoredField) : Bool :=
  f.leaf.isPieced && (!f.repeated || k == 0) && decide ((k + 1) * r.chunk < f.leaf.bytes.length)

theorem chunk_eq_of {c : Chunk} (h : f.chunk order r = .ok c) :
    f.chunk order r = .ok ⟨f.bytes order r, c.followUp⟩ := by
  rw [bytes, h]

theorem chunk_first : f.chunk order (r.atCall 0) = f.leaf.store order (r.atCall 0) := by
  rw [chunk, Request.isFollowUp_atCall_zero, Bool.and_false]
  rfl

theorem chunk_plain (plain : f.repeated = false) : f.chunk order r = f.leaf.store order r := by
  rw [chunk, plain]
  rfl

theorem chunk_atCall (typed : f.leaf.Typed) {c : Chunk}
    (first : f.chunk order (r.atCall 0) = .ok c) (k : Nat) :
    f.chunk order (r.atCall k) =
      .ok ⟨f.bytes order (r.atCall k), if f.pending r k then .store else .none⟩ := by
  have stored := Leaf.store_atCall typed (chunk_first.symm.trans first)
  suffices ∃ c, f.chunk order (r.atCall k) = .ok c ∧
      c.followUp = if f.pending r k then .store else .none by
    obtain ⟨c, written, followUp⟩ := this
    rw [← followUp]
    exact chunk_eq_of written
  cases k with
  | zero =>
    rw [chunk_first]
    simpa [pending] using stored 0
  | succ k =>
    cases plain : f.repeated with
    | true => exact ⟨.empty, by simp [chunk, plain], by simp [pending, plain, Chunk.empty]⟩
    | false =>
      rw [chunk_plain plain]
      simpa [pending, plain] using stored (k + 1)

theorem bytes_of {c : Chunk} (h : f.chunk order r = .ok c) : f.bytes order r = c.bytes := by
  rw [bytes, h]

theorem pending_plain {k : Nat} (pieced : f.leaf.isPieced = true) (plain : f.repeated = false) :
    f.pending r k = true ↔ (k + 1) * r.chunk < f.leaf.bytes.length := by
  simp [pending, pieced, plain]

theorem bytes_long (typed : f.leaf.Typed) (pieced : f.leaf.isPieced = true)
    (plain : f.repeated = false) (long : r.chunk < f.leaf.bytes.length) (k : Nat) :
    f.bytes order (r.atCall k) = (f.leaf.bytes.drop (k * r.chunk)).take r.chunk := by
  have written : f.chunk order (r.atCall k) =
      .ok (TextField.storeChunk (r.atCall k) f.leaf.bytes) :=
    (chunk_plain plain).trans (Leaf.store_long typed pieced long)
  rw [bytes_of written, TextField.storeChunk_eq]
  rfl

theorem bytes_short (typed : f.leaf.Typed) (pieced : f.leaf.isPieced = true)
    (short : f.leaf.bytes.length ≤ r.chunk) (k : Nat) : f.bytes order (r.atCall (k + 1)) = [] := by
  have nothing : f.chunk order (r.atCall (k + 1)) = .ok .empty := by
    rw [chunk, Leaf.store_short (r := r.atCall (k + 1)) typed pieced short,
      Request.isFollowUp_atCall_succ]
    split <;> rfl
  rw [bytes_of nothing]
  rfl

theorem bytes_other (typed : f.leaf.Typed) (other : f.leaf.isPieced = false) {c : Chunk}
    (first : f.chunk order (r.atCall 0) = .ok c) (k : Nat) :
    f.bytes order (r.atCall (k + 1)) = [] := by
  have later := (Leaf.store_other typed other (chunk_first.symm.trans first)).2 k
  have nothing : f.chunk order (r.atCall (k + 1)) = .ok .empty := by
    rw [chunk, later]
    split <;> rfl
  rw [bytes_of nothing]
  rfl

theorem tokens_plain (plain : f.repeated = false) : f.tokens r = (f.leaf.token? r).toList := by
  rw [tokens, plain]
  rfl

theorem storeAll_of {fields : List StoredField} {more : StoredField → Bool}
    (each : ∀ f ∈ fields,
      f.chunk order r = .ok ⟨f.bytes order r, if more f then .store else .none⟩) :
    storeAll order r fields =
      .ok ⟨fields.flatMap (bytes order r), if fields.any more then .store else .none⟩ := by
  induction fields with
  | nil => rfl
  | cons f rest ih =>
    obtain ⟨here, others⟩ := List.forall_mem_cons.mp each
    rw [storeAll, here, ih others, List.flatMap_cons, List.any_cons]
    show Except.ok (Chunk.append _ _) = _
    rw [Chunk.append]
    cases more f <;> cases rest.any more <;> rfl

end StoredField

def Value.Unflagged (v : Value) : Prop :=
  ∀ w ∈ v.walk, w.type.isReadOnly = false ∧ w.type.hasFlag .toBeRemoved = false

namespace Definition

variable {r : Request} {d : Definition}

theorem walk_of_storedFields (formed : d.WellFormed) {f : StoredField}
    (inside : f ∈ d.storedFields) : ∃ t ∈ d.types, f.leaf.Typed ∧ f.leaf.place.type ∈ t.walk ∧
      (f.repeated = true → ∃ u ∈ t.walk, u.kind.isRepeated = true ∧
        f.leaf.place.type ∈ FieldType.walkAll u.children) ∧
      (f.repeated = false → f.leaf.place.periodicIndex = 0 ∧ f.leaf.place.multipleIndex = 0) := by
  obtain ⟨v, listed, inside⟩ := List.mem_flatMap.mp inside
  have listed := List.mem_of_mem_filter listed
  obtain ⟨t, field, same⟩ := formed.top listed
  have type : v.type = t := congrArg Place.type same
  obtain ⟨deep, around⟩ := Value.walk_of_storedFields (formed.values v listed) inside
  obtain ⟨kept, inner⟩ := (formed.values v listed).of_mem_walk _ deep
  rw [type] at inner around
  refine ⟨t, field, ?_, inner, fun within => ?_, fun plain => ?_⟩
  · exact kept.typed
  · rcases around within with none | found
    · cases none
    · exact found
  · exact Value.indexes_of_storedFields (formed.values v listed)
      (congrArg Place.periodicIndex same) (congrArg Place.multipleIndex same) inside plain

theorem typed_storedFields (formed : d.WellFormed) : ∀ f ∈ d.storedFields, f.leaf.Typed := by
  intro f inside
  obtain ⟨t, -, typed, -⟩ := walk_of_storedFields formed inside
  exact typed

theorem part_storedFields (formed : d.WellFormed) {f : StoredField} (inside : f ∈ d.storedFields)
    (plain : f.repeated = false) (start length : Nat) :
    f.leaf.place.part start length = .ofPart f.leaf.place.shortName start length := by
  obtain ⟨t, -, -, -, -, indexes⟩ := walk_of_storedFields formed inside
  exact Place.part_plain (indexes plain).1 (indexes plain).2 start length

theorem plain_storedFields (formed : d.WellFormed) (plain : ∀ t ∈ d.types, t.LobsPlain)
    {f : StoredField} (inside : f ∈ d.storedFields) (lob : f.leaf.place.type.isLob = true) :
    f.leaf.isPieced = true ∧ f.repeated = false := by
  obtain ⟨t, field, -, inner, around, -⟩ := walk_of_storedFields formed inside
  constructor
  · rw [Leaf.isPieced, lob, (plain t field).whole _ inner lob]
    rfl
  · apply Bool.eq_false_iff.mpr
    intro within
    obtain ⟨u, listed, isRepeated, deep⟩ := around within
    have small := (plain t field).outside u listed isRepeated _ deep
    cases small.symm.trans lob

theorem storedFields_of_walk (formed : d.WellFormed) {v : Value} (listed : v ∈ d.values)
    (unflagged : v.Unflagged) {l : Leaf} (inside : .leaf l ∈ v.walk) :
    ∃ f ∈ d.storedFields, f.leaf = l := by
  have here := unflagged v v.mem_walk_self
  obtain ⟨f, stored, same⟩ := Value.storedFields_of_walk (formed.values v listed)
    (fun w deep => (unflagged w deep).1) false inside
  refine ⟨f, List.mem_flatMap.mpr ⟨v, List.mem_filter.mpr ⟨listed, ?_⟩, stored⟩, same⟩
  rw [here.1, here.2]
  rfl

/-- Once the first call of a store succeeds, all calls do. Each writes what its fields write, and
asks for another call as long as one of them is not done. -/
theorem store_atCall (formed : d.WellFormed) (writes : r.store = true) {c : Chunk}
    (first : d.store (r.atCall 0) = .ok c) (k : Nat) : d.store (r.atCall k) =
      .ok ⟨d.storedFields.flatMap (StoredField.bytes d.platform.byteOrder (r.atCall k)),
        if d.storedFields.any (StoredField.pending r k) then .store else .none⟩ := by
  have stored := (store_eq (r := r.atCall 0) writes d).symm.trans first
  rw [store_eq (r := r.atCall k) writes d]
  apply StoredField.storeAll_of
  intro f inside
  obtain ⟨c, written⟩ := StoredField.ok_of_storeAll stored f inside
  exact StoredField.chunk_atCall (typed_storedFields formed f inside) written k

def pieces (size n : Nat) : Nat :=
  (n + size - 1) / size

theorem lt_pieces {size : Nat} (pos : 0 < size) (k n : Nat) :
    k + 1 < pieces size n ↔ (k + 1) * size < n := by
  rw [pieces, Nat.lt_iff_add_one_le, Nat.le_div_iff_mul_le pos, Nat.succ_mul]
  omega

/-- The calls that it takes to store all large texts, and at least one. -/
def storeCalls (r : Request) (d : Definition) : Nat :=
  d.storedFields.foldr (fun f calls =>
    if f.leaf.place.type.isLob then max (pieces r.chunk f.leaf.bytes.length) calls else calls) 1

theorem storeCalls_pos (r : Request) (d : Definition) : 0 < d.storeCalls r := by
  unfold storeCalls
  induction d.storedFields with
  | nil => exact Nat.one_pos
  | cons f rest ih =>
    rw [List.foldr_cons]
    split
    · exact Nat.lt_of_lt_of_le ih (Nat.le_max_right ..)
    · exact ih

theorem lt_storeCalls (k : Nat) : k + 1 < d.storeCalls r ↔
    ∃ f ∈ d.storedFields, f.leaf.place.type.isLob = true ∧
      (k + 1) * r.chunk < f.leaf.bytes.length := by
  unfold storeCalls
  induction d.storedFields with
  | nil => simp
  | cons f rest ih =>
    rw [List.foldr_cons, List.exists_mem_cons_iff, ← ih]
    split
    · rename_i lob
      simp only [lob, true_and]
      rw [← lt_pieces r.chunk_pos, lt_max_iff]
    · rename_i small
      simp [small]

/-- The first `n` calls of a store. All of them succeed, and the last one is the first that does not
ask for another. -/
structure StoreRun (r : Request) (d : Definition) (n : Nat) : Prop where
  called : 0 < n
  calls : ∀ k < n, ∃ c, d.store (r.atCall k) = .ok c ∧ (c.followUp = .store ↔ k + 1 < n)

theorem flatMap_chunks (bytes : List UInt8) (size n : Nat) :
    (List.range n).flatMap (fun k => (bytes.drop (k * size)).take size) =
      bytes.take (n * size) := by
  induction n with
  | zero => simp
  | succ n ih =>
    rw [List.range_succ, List.flatMap_append, ih, List.flatMap_singleton, Nat.succ_mul,
      List.take_add]

theorem length_lt_storedFields [Libraries] (reached : d.Reached) {f : StoredField}
    (inside : f ∈ d.storedFields) (pieced : f.leaf.isPieced = true) :
    f.leaf.bytes.length < UInt32.size := by
  obtain ⟨v, listed, stored⟩ := List.mem_flatMap.mp inside
  have listed := List.mem_of_mem_filter listed
  have deep := (Value.walk_of_storedFields (reached.wellFormed.values v listed) stored).1
  have counted := (reached.everywhere Leaf.lasting_counted v listed).of_walk deep
  exact Leaf.length_lt_of_counted (typed_storedFields reached.wellFormed f inside) counted pieced

theorem any_pending_iff (formed : d.WellFormed) (plain : ∀ t ∈ d.types, t.LobsPlain) (k : Nat) :
    d.storedFields.any (StoredField.pending r k) = true ↔ k + 1 < d.storeCalls r := by
  rw [lt_storeCalls, List.any_eq_true]
  apply exists_congr
  intro f
  apply and_congr_right
  intro inside
  constructor
  · intro more
    have lob : f.leaf.place.type.isLob = true := by
      simp only [StoredField.pending, Leaf.isPieced, Bool.and_eq_true] at more
      exact more.1.1.1
    obtain ⟨pieced, single⟩ := plain_storedFields formed plain inside lob
    exact ⟨lob, (StoredField.pending_plain pieced single).mp more⟩
  · rintro ⟨lob, more⟩
    obtain ⟨pieced, single⟩ := plain_storedFields formed plain inside lob
    exact (StoredField.pending_plain pieced single).mpr more

theorem length_le_storeCalls {f : StoredField} (inside : f ∈ d.storedFields)
    (lob : f.leaf.place.type.isLob = true) : f.leaf.bytes.length ≤ d.storeCalls r * r.chunk := by
  apply Nat.le_of_not_lt
  intro more
  have calls := storeCalls_pos r d
  have last : d.storeCalls r - 1 + 1 = d.storeCalls r := by omega
  have beyond := (lt_storeCalls (d.storeCalls r - 1)).mpr ⟨f, inside, lob, last.symm ▸ more⟩
  omega

/-- Every call but the first starts inside of a large text, so that its first byte has a number that
is a word. -/
theorem counts_of_lt_storeCalls [Libraries] (reached : d.Reached)
    (plain : ∀ t ∈ d.types, t.LobsPlain)
    {k : Nat} (called : k < d.storeCalls r) : k * r.chunk + 1 < UInt32.size := by
  cases k with
  | zero =>
    rw [Nat.zero_mul]
    decide
  | succ k =>
    obtain ⟨f, inside, lob, more⟩ := (lt_storeCalls k).mp called
    obtain ⟨pieced, -⟩ := plain_storedFields reached.wellFormed plain inside lob
    exact Nat.lt_of_le_of_lt more (length_lt_storedFields reached inside pieced)

/-- What a store in chunks makes of the fields in the calls of its run. -/
structure StoresChunks (r : Request) (d : Definition) : Prop where
  fields : ∀ v ∈ d.values, v.Unflagged → ∀ l, .leaf l ∈ v.walk → ∃ f ∈ d.storedFields, f.leaf = l
  run : d.StoreRun r (d.storeCalls r)
  record : ∀ k < d.storeCalls r, (d.store (r.atCall k)).map Chunk.bytes =
    .ok (d.storedFields.flatMap (StoredField.bytes d.platform.byteOrder (r.atCall k)))
  format : ∀ k < d.storeCalls r, (d.format (r.atCall k)).1 =
    Token.append "" (d.storedFields.flatMap (StoredField.tokens (r.atCall k))) ++ "."
  long : ∀ f ∈ d.storedFields, f.leaf.place.type.isLob = true →
    r.chunk < f.leaf.bytes.length →
    (List.range (d.storeCalls r)).flatMap
        (fun k => f.bytes d.platform.byteOrder (r.atCall k)) = f.leaf.bytes ∧
      ∀ k < d.storeCalls r, f.bytes d.platform.byteOrder (r.atCall k) =
          (f.leaf.bytes.drop (k * r.chunk)).take r.chunk ∧
        f.tokens (r.atCall k) =
          if k * r.chunk < f.leaf.bytes.length then [.ofPart f.leaf.place.shortName
            (k * r.chunk + 1) (min r.chunk (f.leaf.bytes.length - k * r.chunk))] else []
  short : ∀ f ∈ d.storedFields, f.leaf.place.type.isLob = true →
    f.leaf.bytes.length ≤ r.chunk →
    let payload := TextField.payload f.leaf.bytes
    f.bytes d.platform.byteOrder (r.atCall 0) =
        d.platform.byteOrder.encode 4 (payload.length + 4) ++ payload ∧
      f.tokens (r.atCall 0) = [⟨f.leaf.place.tokenText, f.leaf.bytes.length + 4⟩] ∧
      ∀ k, f.bytes d.platform.byteOrder (r.atCall (k + 1)) = [] ∧ f.tokens (r.atCall (k + 1)) = []
  others : ∀ f ∈ d.storedFields, f.leaf.place.type.isLob = false →
    ∀ k, f.bytes d.platform.byteOrder (r.atCall (k + 1)) = [] ∧ f.tokens (r.atCall (k + 1)) = []

section Run

variable [Libraries] (reached : d.Reached) {f : StoredField} (inside : f ∈ d.storedFields)
include reached inside

theorem flatMap_bytes_long (lob : f.leaf.place.type.isLob = true) (pieced : f.leaf.isPieced = true)
    (single : f.repeated = false) (long : r.chunk < f.leaf.bytes.length) :
    (List.range (d.storeCalls r)).flatMap
      (fun k => f.bytes d.platform.byteOrder (r.atCall k)) = f.leaf.bytes := by
  have typed := typed_storedFields reached.wellFormed f inside
  simp only [StoredField.bytes_long typed pieced single long, flatMap_chunks]
  exact List.take_of_length_le (length_le_storeCalls inside lob)

theorem tokens_long (pieced : f.leaf.isPieced = true) (single : f.repeated = false)
    (writes : r.store = true) (long : r.chunk < f.leaf.bytes.length) {k : Nat}
    (counts : k * r.chunk + 1 < UInt32.size) : f.tokens (r.atCall k) =
      if k * r.chunk < f.leaf.bytes.length then [.ofPart f.leaf.place.shortName
        (k * r.chunk + 1) (min r.chunk (f.leaf.bytes.length - k * r.chunk))] else [] := by
  have typed := typed_storedFields reached.wellFormed f inside
  have held := length_lt_storedFields reached inside pieced
  rw [StoredField.tokens_plain single,
    Leaf.token_long (r := r.atCall k) writes typed pieced held counts long,
    part_storedFields reached.wellFormed inside single]
  show Option.toList (if k * r.chunk < _ then _ else _) = _
  split <;> rfl

theorem short_in_first_call (pieced : f.leaf.isPieced = true) (single : f.repeated = false)
    (writes : r.store = true) (short : f.leaf.bytes.length ≤ r.chunk) :
    let payload := TextField.payload f.leaf.bytes
    f.bytes d.platform.byteOrder (r.atCall 0) =
        d.platform.byteOrder.encode 4 (payload.length + 4) ++ payload ∧
      f.tokens (r.atCall 0) = [⟨f.leaf.place.tokenText, f.leaf.bytes.length + 4⟩] ∧
      ∀ k, f.bytes d.platform.byteOrder (r.atCall (k + 1)) = [] ∧
        f.tokens (r.atCall (k + 1)) = [] := by
  have typed := typed_storedFields reached.wellFormed f inside
  have whole : ∀ k, f.chunk d.platform.byteOrder (r.atCall k) = _ := fun k =>
    (StoredField.chunk_plain single).trans (Leaf.store_short typed pieced short)
  have token := fun k => Leaf.token_short (r := r.atCall k) writes typed pieced short
  refine ⟨?_, ?_, fun k => ⟨?_, ?_⟩⟩
  · rw [StoredField.bytes_of (whole 0)]
    exact ByteOrder.frame_variable
  · rw [StoredField.tokens_plain single, token 0]
    rfl
  · exact StoredField.bytes_short typed pieced short k
  · rw [StoredField.tokens_plain single, token (k + 1), Request.isFollowUp_atCall_succ]
    rfl

theorem others_in_first_call (writes : r.store = true) {c : Chunk}
    (first : d.store (r.atCall 0) = .ok c) (small : f.leaf.place.type.isLob = false) (k : Nat) :
    f.bytes d.platform.byteOrder (r.atCall (k + 1)) = [] ∧ f.tokens (r.atCall (k + 1)) = [] := by
  have typed := typed_storedFields reached.wellFormed f inside
  have other : f.leaf.isPieced = false := by
    rw [Leaf.isPieced, small]
    rfl
  obtain ⟨c, written⟩ := StoredField.ok_of_storeAll
    ((store_eq (r := r.atCall 0) writes d).symm.trans first) f inside
  constructor
  · exact StoredField.bytes_other typed other written k
  · rw [StoredField.tokens, Leaf.token_other typed other (Request.isFollowUp_atCall_succ r k)]
    split <;> rfl

end Run

/-- Once the first call of a store in chunks succeeds, the run takes as many calls as the longest
large text has chunks, and each text arrives whole. -/
theorem stores_chunks [Libraries] (reached : d.Reached) (plain : ∀ t ∈ d.types, t.LobsPlain)
    (writes : r.store = true) {c : Chunk} (first : d.store (r.atCall 0) = .ok c) :
    d.StoresChunks r := by
  have formed := reached.wellFormed
  have stored := store_atCall formed writes first
  constructor
  case fields => exact fun v listed unflagged l => storedFields_of_walk formed listed unflagged
  case run =>
    refine ⟨storeCalls_pos r d, fun k _ => ⟨_, stored k, ?_⟩⟩
    rw [← any_pending_iff formed plain k]
    cases d.storedFields.any (StoredField.pending r k) <;> simp
  case record =>
    intro k _
    rw [stored k]
    rfl
  case format =>
    intro k _
    rw [format, tokens_eq (r := r.atCall k) writes]
  case long =>
    intro f inside lob long
    obtain ⟨pieced, single⟩ := plain_storedFields formed plain inside lob
    refine ⟨flatMap_bytes_long reached inside lob pieced single long, fun k called => ⟨?_, ?_⟩⟩
    · exact StoredField.bytes_long (typed_storedFields formed f inside) pieced single long k
    · exact tokens_long reached inside pieced single writes long
        (counts_of_lt_storeCalls reached plain called)
  case short =>
    intro f inside lob short
    obtain ⟨pieced, single⟩ := plain_storedFields formed plain inside lob
    exact short_in_first_call reached inside pieced single writes short
  case others =>
    exact fun f inside small => others_in_first_call reached inside writes first small

namespace Sample

def chunked : Request :=
  { Request.ofCall true 0 with chunkSize := 2 }

end Sample

theorem sample_stores_chunks : ∃ d : Definition, d.Reached ∧ (∀ t ∈ d.types, t.LobsPlain) ∧
    d.store (Sample.chunked.atCall 0) =
      .ok ⟨[1, 2, 0x20, 0x20, 0, 0, 0, 6, 6, 7], .store⟩ ∧
    d.storeCalls Sample.chunked = 3 ∧ d.StoresChunks Sample.chunked := by
  have reached := Reached.assigned (.assigned (.new (rfl : ofTypes .openSystem
    Sample.lobTypes = .ok _)) "LA" (.bytes [1, 2, 3, 4, 5]) rfl) "LB" (.bytes [6, 7]) rfl
  exact ⟨_, reached, Sample.lobsPlain, rfl, rfl,
    stores_chunks reached Sample.lobsPlain rfl rfl⟩

theorem readOnly_lob_left_out : ∃ d : Definition, d.Reached ∧ (∀ t ∈ d.types, t.LobsPlain) ∧
    d.values.map Value.bytes = [[1, 2, 3]] ∧ d.format (.ofCall true 0) = (".", 0) ∧
    d.store (.ofCall true 0) = .ok .empty := by
  have reached := Reached.assigned (.new (rfl : ofTypes .openSystem
    [(FieldType.ofKind (.text .large false) "LB").withFlag .readOnly] = .ok _)) "LB"
      (.bytes [1, 2, 3]) rfl
  refine ⟨_, reached, ?_, rfl, rfl, rfl⟩
  intro t listed
  rw [List.mem_singleton.mp listed]
  exact ⟨by decide, by decide⟩

end Definition

end RecordCodec
