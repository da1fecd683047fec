import RecordCodec.Proofs.Definition.ReadLength

/-!
How many occurrences a record can hold. A read trusts the number in front of the occurrences of a
repeated field; what stops it is the end of the record, and so the bytes that each occurrence takes.
Fields that hold no data take none: any number of occurrences made of them alone can be read from
the count by itself.
-/
namespace RecordCodec

namespace ByteQueue

variable {q q' q'' : ByteQueue} {m n : Nat}

def Passes (q : ByteQueue) (n : Nat) (q' : ByteQueue) : Prop :=
  ∃ taken, n ≤ taken ∧ q.Yields taken q'

theorem Yields.passes (yields : q.Yields m q') (enough : n ≤ m) : q.Passes n q' :=
  ⟨m, enough, yields⟩

theorem passes_zero (q : ByteQueue) : q.Passes 0 q :=
  q.yields_zero.passes (Nat.le_refl 0)

theorem Passes.mono (passes : q.Passes m q') (less : n ≤ m) : q.Passes n q' := by
  obtain ⟨taken, enough, yields⟩ := passes
  exact yields.passes (less.trans enough)

theorem Passes.trans (first : q.Passes m q') (later : q'.Passes n q'') :
    q.Passes (m + n) q'' := by
  obtain ⟨front, enough, yields⟩ := first
  obtain ⟨behind, more, others⟩ := later
  exact (yields.trans others).passes (Nat.add_le_add enough more)

theorem Passes.offset (passes : q.Passes n q') : q.offset + n ≤ q'.offset := by
  obtain ⟨taken, enough, yields⟩ := passes
  have moved := yields.offset
  omega

end ByteQueue

def FieldKind.holdsNumber : FieldKind → Bool
  | text .. | superDescriptor | pseudo _ | group | periodicGroup | multiple => false
  | _ => true

namespace FieldType

def countWidth (t : FieldType) : Nat :=
  match t.occurrence with
  | .index _ => 0
  | _ => 4

mutual

/-- The bytes that a read takes for a field at the least: one for data, unless it is a text
restricted to an empty range, and four for a count. -/
def leastBytes (t : FieldType) : Nat :=
  match t with
  | { kind := kind, length := length, partialRange := range?, children := children,
      occurrence := occurrence, .. } =>
    match kind with
    | .pseudo _ => 0
    | .superDescriptor => length
    | .text .. => (range?.map fun range => min 1 range.length).getD 1
    | .group => leastOfMembers children
    | .periodicGroup | .multiple =>
      match occurrence with
      | .index _ => leastOfMembers children
      | _ => 4
    | _ => 1

def leastOfMembers : List FieldType → Nat
  | [] => 0
  | t :: rest => t.leastBytes + leastOfMembers rest

end

variable {t : FieldType}

theorem leastBytes_pseudo (kind : t.kind.isPseudo = true) : t.leastBytes = 0 := by
  cases t with
  | mk kind' => cases kind' <;> first | rfl | cases kind

theorem leastBytes_superDescriptor (kind : t.kind = .superDescriptor) :
    t.leastBytes = t.length := by
  cases t with
  | mk => cases kind; rfl

theorem leastBytes_number (number : t.kind.holdsNumber = true) : t.leastBytes = 1 := by
  cases t with
  | mk kind => cases kind <;> first | rfl | cases number

theorem leastBytes_text {size : TextSize} {unicode : Bool} (kind : t.kind = .text size unicode) :
    t.leastBytes = (t.partialRange.map fun range => min 1 range.length).getD 1 := by
  cases t with
  | mk => cases kind; rfl

theorem leastBytes_repeated (repeated : t.kind.isRepeated = true) :
    t.leastBytes = match t.occurrence with
      | .index _ => leastOfMembers t.children
      | _ => 4 := by
  cases t with
  | mk kind =>
    cases kind <;> first | rfl | cases repeated

/-- A field takes no bytes at all exactly if it has no count and none of its parts takes any. -/
theorem leastBytes_eq_zero_iff (repeated : t.kind.isRepeated = true) :
    t.leastBytes = 0 ↔ t.countWidth = 0 ∧ leastOfMembers t.children = 0 := by
  rw [leastBytes_repeated repeated, countWidth]
  cases t.occurrence <;> simp

end FieldType

namespace TextField

variable {p : Place} {size : TextSize} {c c' : TextContent} {r : Request} {q q' : ByteQueue}
  {progress : Progress}

theorem passes_readWhole {bytes : List UInt8} (h : readWhole p size q = .ok (bytes, q')) :
    q.Passes 1 q' := by
  obtain ⟨⟨n, front⟩, counted, taken⟩ := Outcome.bind_ok.mp h
  have behind : front.Yields n q' := ⟨bytes, taken⟩
  rw [readLength] at counted
  split at counted
  · obtain ⟨⟨header, _⟩, took, same⟩ := Outcome.map_ok.mp counted
    cases same
    have positive : 0 < size.header := by cases size <;> decide
    exact ((ByteQueue.yields_takeNat took).trans behind).passes (by omega)
  · rename_i fixed
    cases counted
    have positive : p.type.length ≠ 0 := fun none => fixed (p.type.isVariable_iff.mpr none)
    exact behind.passes (Nat.pos_of_ne_zero positive)

/-- A first call takes a byte for every text: of its length, of its range or of its bytes. -/
theorem passes_parse {unicode : Bool} (kind : p.type.kind = .text size unicode)
    (first : r.isFollowUp = false) (h : parse p size r c q = (c', .ok progress)) :
    q.Passes p.type.leastBytes progress.queue := by
  rw [FieldType.leastBytes_text kind]
  simp only [parse, first, Bool.false_eq_true, if_false] at h
  cases part : p.type.partialRange with
  | some range =>
    simp only [part] at h
    split at h
    · cases h
    · rename_i bytes q' taken
      cases h
      exact ByteQueue.Yields.passes ⟨bytes, taken⟩ (Nat.min_le_right 1 range.length)
  | none =>
    simp only [part] at h
    split at h
    · exact (yields_readStart h).passes (Nat.le_trans (by decide) (Nat.le_add_right 4 _))
    · split at h
      · cases h
      · rename_i bytes q' read
        cases h
        exact passes_readWhole read

theorem empty_range {unicode : Bool} (kind : p.type.kind = .text size unicode)
    (weightless : p.type.leastBytes = 0) :
    ∃ range, p.type.partialRange = some range ∧ range.length = 0 := by
  rw [FieldType.leastBytes_text kind] at weightless
  cases restricted : p.type.partialRange with
  | none => simp [restricted] at weightless
  | some range =>
    rw [restricted] at weightless
    exact ⟨range, rfl, by simpa using weightless⟩

end TextField

namespace Leaf

variable {r : Request} {l l' : Leaf} {q q' : ByteQueue} {progress : Progress}

theorem passes_readShort {p : Place} {bytes : List UInt8} (h : readShort p q = .ok (bytes, q')) :
    q.Passes 1 q' := by
  rw [readShort] at h
  split at h
  · obtain ⟨⟨n, front⟩, counted, taken⟩ := Outcome.bind_ok.mp h
    have behind : front.Yields (n - 1) q' := ⟨bytes, taken⟩
    exact ((ByteQueue.yields_takeNat counted).trans behind).passes (by omega)
  · rename_i fixed
    have positive : p.type.length ≠ 0 := fun none => fixed (p.type.isVariable_iff.mpr none)
    exact ByteQueue.Yields.passes ⟨bytes, h⟩ (Nat.pos_of_ne_zero positive)

theorem passes_readContent (typed : l.Typed)
    (moved : ∀ size unicode c, l.content ≠ .text size unicode c) {content : Content}
    (read : l.readContent q = .ok (content, q')) : q.Passes l.place.type.leastBytes q' := by
  obtain ⟨p, before⟩ := l
  have one (number : p.type.kind.holdsNumber = true) {n : Nat} (positive : 1 ≤ n)
      (yields : q.Yields n q') : q.Passes p.type.leastBytes q' :=
    yields.passes ((FieldType.leastBytes_number number).trans_le positive)
  cases before with
  | text size unicode c => exact absurd rfl (moved size unicode c)
  | pseudo =>
    cases read
    exact (FieldType.leastBytes_pseudo typed).symm ▸ q.passes_zero
  | superDescriptor =>
    obtain ⟨⟨bytes, _⟩, taken, same⟩ := Outcome.map_ok.mp read
    cases same
    rw [FieldType.leastBytes_superDescriptor typed]
    exact ByteQueue.Yields.passes ⟨bytes, taken⟩ (Nat.le_refl _)
  | integer width signed v =>
    obtain ⟨_, took, same⟩ := Outcome.map_ok.mp read
    cases same
    obtain ⟨_, counted, same⟩ := Outcome.bind_ok.mp took
    cases same
    have kind : p.type.kind = .binary width signed := typed
    exact one (kind ▸ rfl) (by cases width <;> decide) (ByteQueue.yields_takeNat counted)
  | float wide bits =>
    obtain ⟨_, took, same⟩ := Outcome.map_ok.mp read
    cases same
    have kind : p.type.kind = .float wide := typed
    exact one (kind ▸ rfl) (by cases wide <;> decide) (ByteQueue.yields_takeNat took)
  | octets | packed | unpacked =>
    obtain ⟨_, took, same⟩ := Outcome.map_ok.mp read
    cases same
    have kind : p.type.kind = _ := typed
    obtain ⟨n, positive, yields⟩ := passes_readShort took
    exact one (kind ▸ rfl) positive yields

theorem passes_parse (typed : l.Typed) (first : r.isFollowUp = false)
    (parsed : l.parse r q = (l', .ok progress)) :
    q.Passes l.place.type.leastBytes progress.queue := by
  by_cases text : ∃ size unicode c, l.content = .text size unicode c
  · obtain ⟨p, content⟩ := l
    obtain ⟨size, unicode, c, rfl⟩ := text
    have kind : p.type.kind = .text size unicode := typed
    obtain ⟨-, outcome⟩ := Prod.mk.inj parsed
    exact TextField.passes_parse kind first (Prod.ext rfl outcome)
  · have moved : ∀ size unicode c, l.content ≠ .text size unicode c :=
      fun size unicode c same => text ⟨size, unicode, c, same⟩
    obtain ⟨content, read⟩ := readContent_of_parse first moved parsed
    exact passes_readContent typed moved read

/-- A field that need not take bytes is read at any place of a record, and leaves it there. -/
theorem parse_weightless (typed : l.Typed) (first : r.isFollowUp = false)
    (weightless : l.place.type.leastBytes = 0) (q : ByteQueue) :
    ∃ l', l.parse r q = (l', .ok (.done q)) := by
  obtain ⟨p, content⟩ := l
  cases content with
  | pseudo => exact ⟨_, rfl⟩
  | superDescriptor bytes =>
    have empty : p.type.length = 0 :=
      (FieldType.leastBytes_superDescriptor typed).symm.trans weightless
    obtain ⟨taken, none⟩ := q.yields_zero
    refine ⟨⟨p, .superDescriptor taken⟩, ?_⟩
    simp [parse, first, readContent, empty, none, Except.map]
  | text size unicode c =>
    obtain ⟨range, restricted, empty⟩ := TextField.empty_range typed weightless
    have restricted : p.type.partialRange = some range := restricted
    obtain ⟨taken, none⟩ := q.yields_zero
    refine ⟨⟨p, .text size unicode ⟨taken, c.announced⟩⟩, ?_⟩
    simp [parse, TextField.parse, first, restricted, empty, none]
  | integer | octets | float | packed | unpacked =>
    have kind : p.type.kind = _ := typed
    have one : p.type.leastBytes = 1 := FieldType.leastBytes_number (kind ▸ rfl)
    exact absurd (one.symm.trans weightless) Nat.one_ne_zero

end Leaf

section Occurrences

variable {α : Type} {read : Nat → ByteQueue → Except FieldFault (α × Remainder)} {least : Nat}

theorem readOccurrences_passes
    (each : ∀ k q a left, read k q = .ok (a, left) → q.Passes least left.queue)
    {count k : Nat} {q : ByteQueue} {as : List α} {left : Remainder}
    (h : readOccurrences read count k q = .ok (as, left)) :
    as.length = count ∧ q.Passes (count * least) left.queue := by
  induction count generalizing k q as left with
  | zero =>
    cases h
    exact ⟨rfl, by simpa using q.passes_zero⟩
  | succ count ih =>
    obtain ⟨⟨first, after⟩, readFirst, h⟩ := Outcome.bind_ok.mp h
    obtain ⟨⟨others, behind⟩, readOthers, h⟩ := Outcome.bind_ok.mp h
    cases h
    obtain ⟨length, passes⟩ := ih readOthers
    have total := (each _ _ _ _ readFirst).trans passes
    exact ⟨congrArg Nat.succ length, total.mono (by rw [Nat.succ_mul, Nat.add_comm])⟩

theorem readOccurrences_weightless (each : ∀ k q, ∃ a, read k q = .ok (a, ⟨q, .none⟩))
    (count k : Nat) (q : ByteQueue) :
    ∃ as, as.length = count ∧ readOccurrences read count k q = .ok (as, ⟨q, .none⟩) := by
  induction count generalizing k with
  | zero => exact ⟨[], rfl, rfl⟩
  | succ count ih =>
    obtain ⟨a, first⟩ := each k q
    obtain ⟨as, length, others⟩ := ih (k + 1)
    refine ⟨a :: as, congrArg Nat.succ length, ?_⟩
    rw [readOccurrences, first]
    simp [bind, Except.bind, others, FollowUp.join, pure, Except.pure]

end Occurrences

namespace Place

variable {p : Place} {r : Request} {q q' : ByteQueue} {elements : List (List Value)}
  {left : Remainder}

theorem yields_occurrenceCount {count : Nat} (counted : p.occurrenceCount q = .ok (count, q')) :
    q.Yields p.type.countWidth q' ∧ (p.type.countWidth = 0 → count = 1) := by
  unfold occurrenceCount at counted
  unfold FieldType.countWidth
  cases asked : p.type.occurrence with
  | index i =>
    rw [asked] at counted
    cases counted
    exact ⟨q.yields_zero, fun _ => rfl⟩
  | single | all | range =>
    rw [asked] at counted
    exact ⟨ByteQueue.yields_takeNat counted, nofun⟩

theorem passes_readRepeated
    (each : ∀ i j q members left,
      FieldType.readMembers r p.platform i j q p.type.children = .ok (members, left) →
      q.Passes (FieldType.leastOfMembers p.type.children) left.queue)
    (h : p.readRepeated r q = .ok (elements, left)) :
    q.Passes (p.type.countWidth + elements.length * FieldType.leastOfMembers p.type.children)
        left.queue ∧ (p.type.countWidth = 0 → elements.length = 1) := by
  rw [readRepeated, readElements] at h
  split at h
  · cases h
  · rename_i count q' counted
    obtain ⟨front, single⟩ := yields_occurrenceCount counted
    obtain ⟨rfl, behind⟩ := readOccurrences_passes (fun k q a left => each _ _ q a left) h
    exact ⟨(front.passes (Nat.le_refl _)).trans behind, single⟩

theorem readRepeated_weightless
    (each : ∀ i j q, ∃ members,
      FieldType.readMembers r p.platform i j q p.type.children = .ok (members, ⟨q, .none⟩))
    {count : Nat} (counted : p.occurrenceCount q = .ok (count, q')) :
    ∃ elements, elements.length = count ∧ p.readRepeated r q = .ok (elements, ⟨q', .none⟩) := by
  rw [readRepeated, readElements, counted]
  exact readOccurrences_weightless (fun k q => each _ _ q) count 0 q'

theorem occurrenceCount_uncounted (none : p.type.countWidth = 0) (q : ByteQueue) :
    p.occurrenceCount q = .ok (1, q) := by
  unfold FieldType.countWidth at none
  unfold occurrenceCount
  cases asked : p.type.occurrence with
  | index i => rfl
  | single | all | range => simp [asked] at none

end Place

namespace FieldType

variable {r : Request} {platform : Platform}

theorem leastBytes_le_occurrences {t : FieldType} (repeated : t.kind.isRepeated = true) {n : Nat}
    (single : t.countWidth = 0 → n = 1) :
    t.leastBytes ≤ t.countWidth + n * leastOfMembers t.children := by
  rw [leastBytes_repeated repeated]
  unfold countWidth at single ⊢
  cases occurrence : t.occurrence with
  | index =>
    rw [occurrence] at single
    simp [single rfl]
  | single | all | range => exact Nat.le_add_right 4 _

mutual

theorem passes_readAt (first : r.isFollowUp = false) {i j : Nat} {q : ByteQueue} {t : FieldType}
    {v : Value} {left : Remainder} (h : t.readAt r platform i j q = .ok (v, left)) :
    q.Passes t.leastBytes left.queue := by
  match t with
  | ⟨kind, shortName, name, length, fraction, options, flags, charset, part, children, occurrence,
      superEntries⟩ =>
    cases kind with
    | group =>
      obtain ⟨⟨members, left'⟩, read, h⟩ := Outcome.bind_ok.mp h
      cases h
      exact passes_readMembers first read
    | periodicGroup | multiple =>
      rw [readAt_repeated rfl first] at h
      obtain ⟨⟨elements, left'⟩, read, h⟩ := Outcome.map_ok.mp h
      cases h
      obtain ⟨passes, single⟩ := Place.passes_readRepeated
        (fun i j q members left => passes_readMembers first) read
      exact passes.mono (leastBytes_le_occurrences rfl single)
    | binary | octets | float | packed | unpacked | text | superDescriptor | pseudo =>
      rw [readAt_leaf rfl] at h
      split at h
      · cases h
      · rename_i l progress parsed
        cases h
        exact Leaf.passes_parse (Leaf.typed_fresh rfl) first parsed

theorem passes_readMembers (first : r.isFollowUp = false) {i j : Nat} {q : ByteQueue}
    {types : List FieldType} {vs : List Value} {left : Remainder}
    (h : readMembers r platform i j q types = .ok (vs, left)) :
    q.Passes (leastOfMembers types) left.queue := by
  match types with
  | [] =>
    cases h
    exact q.passes_zero
  | t :: rest =>
    obtain ⟨⟨v, after⟩, readFirst, h⟩ := Outcome.bind_ok.mp h
    obtain ⟨⟨others, left'⟩, readOthers, h⟩ := Outcome.bind_ok.mp h
    cases h
    have others := passes_readMembers first readOthers
    exact (passes_readAt first readFirst).trans others

end

theorem readAt_leaf_weightless (first : r.isFollowUp = false) {t : FieldType}
    (flat : t.kind.isStructure = false) (weightless : t.leastBytes = 0) (i j : Nat)
    (q : ByteQueue) : ∃ v, t.readAt r platform i j q = .ok (v, ⟨q, .none⟩) := by
  have typed : (Leaf.fresh ⟨t, platform, i, j⟩).Typed := Leaf.typed_fresh flat
  obtain ⟨l, parsed⟩ := Leaf.parse_weightless typed first weightless q
  rw [readAt_leaf flat, parsed]
  exact ⟨.leaf l, rfl⟩

mutual

theorem readAt_weightless (first : r.isFollowUp = false) {t : FieldType}
    (weightless : t.leastBytes = 0) (i j : Nat) (q : ByteQueue) :
    ∃ v, t.readAt r platform i j q = .ok (v, ⟨q, .none⟩) := by
  match t with
  | ⟨kind, shortName, name, length, fraction, options, flags, charset, part, children, occurrence,
      superEntries⟩ =>
    cases kind with
    | group =>
      have members : leastOfMembers children = 0 := weightless
      obtain ⟨vs, read⟩ := readMembers_weightless first members i 0 q
      rw [readAt_group rfl]
      exact ⟨_, congrArg (Except.map _) read⟩
    | periodicGroup | multiple =>
      obtain ⟨none, members⟩ := (leastBytes_eq_zero_iff rfl).mp weightless
      have counted := Place.occurrenceCount_uncounted (p := ⟨_, platform, i, j⟩) none q
      obtain ⟨elements, -, read⟩ := Place.readRepeated_weightless (r := r)
        (fun i j q => readMembers_weightless first members i j q) counted
      rw [readAt_repeated rfl first]
      exact ⟨_, congrArg (Except.map _) read⟩
    | binary | octets | float | packed | unpacked | text | superDescriptor | pseudo =>
      exact readAt_leaf_weightless first rfl weightless i j q

theorem readMembers_weightless (first : r.isFollowUp = false) {types : List FieldType}
    (weightless : leastOfMembers types = 0) (i j : Nat) (q : ByteQueue) :
    ∃ vs, readMembers r platform i j q types = .ok (vs, ⟨q, .none⟩) := by
  match types with
  | [] => exact ⟨[], rfl⟩
  | t :: rest =>
    obtain ⟨here, later⟩ := Nat.add_eq_zero_iff.mp weightless
    obtain ⟨v, readFirst⟩ := readAt_weightless first here i j q
    obtain ⟨others, readOthers⟩ := readMembers_weightless first later i j q
    refine ⟨v :: others, ?_⟩
    rw [readMembers, readFirst]
    simp [bind, Except.bind, readOthers, FollowUp.join, pure, Except.pure]

end

end FieldType

namespace Value

open FieldType (leastOfMembers)

/-- A first call that reads a repeated field from a record. -/
structure RecordRead (t : FieldType) where
  request : Request
  first : request.isFollowUp = false
  place : Place
  of_type : place.type = t
  before : List (List Value)
  record : ByteQueue
  elements : List (List Value)
  progress : Progress
  parsed : (node place before).parse request record = (node place elements, .ok progress)

namespace RecordRead

variable {t : FieldType}

def taken (c : RecordRead t) : Nat :=
  c.progress.queue.offset - c.record.offset

theorem read (c : RecordRead t) (repeated : t.kind.isRepeated = true) :
    ∃ left, c.place.readRepeated c.request c.record = .ok (c.elements, left) ∧
      left.queue = c.progress.queue := by
  have kind : c.place.type.kind.isRepeated = true := by rwa [c.of_type]
  have paired := Outcome.paired_ok.mpr c.parsed
  rw [paired_parse_repeated kind c.first] at paired
  obtain ⟨⟨elements, left⟩, read, same⟩ := Outcome.map_ok.mp paired
  obtain ⟨node_eq, progress_eq⟩ := Prod.mk.inj same
  obtain ⟨-, rfl⟩ := Value.node.inj node_eq
  exact ⟨left, read, congrArg Progress.queue progress_eq⟩

theorem least_taken (c : RecordRead t) (repeated : t.kind.isRepeated = true) :
    t.countWidth + c.elements.length * leastOfMembers t.children ≤ c.taken := by
  obtain ⟨left, read, same⟩ := c.read repeated
  have passes := (Place.passes_readRepeated
    (fun i j q members left => FieldType.passes_readMembers c.first) read).1.offset
  rw [c.of_type, same] at passes
  rw [taken]
  omega

/-- Where occurrences take nothing, a record of the count alone has as many as it says. -/
theorem exists_of_weightless (repeated : t.kind.isRepeated = true)
    (weightless : leastOfMembers t.children = 0) (order : ByteOrder) {count : Nat}
    (counts : t.Counts count) :
    ∃ c : RecordRead t, c.record = .ofList order (t.countLayout order count) ∧
      c.elements.length = count ∧ c.taken = t.countWidth := by
  let place : Place := ⟨t, .openSystem, 0, 0⟩
  let request : Request := .ofCall false 0
  have counts := FieldType.consumes_occurrenceCount (p := place) repeated counts order
  have counted := counts.whole [] []
  rw [List.append_nil] at counted
  obtain ⟨elements, length, read⟩ := Place.readRepeated_weightless (r := request)
    (fun i j q => FieldType.readMembers_weightless rfl weightless i j q) counted
  have parsed := paired_parse_repeated (p := place) (r := request) repeated rfl []
    (.ofList order (t.countLayout order count))
  rw [ByteQueue.ofList, read] at parsed
  refine ⟨⟨request, rfl, place, rfl, [], _, elements, _, Outcome.paired_ok.mp parsed⟩, rfl,
    length, ?_⟩
  have moved := (Place.yields_occurrenceCount counted).1.offset
  exact Nat.sub_eq_of_eq_add (moved.trans (Nat.add_comm ..))

end RecordRead

/-- A first call that reads a repeated field takes the bytes of each occurrence, so a record cannot
have more of them than it has bytes, exactly if an occurrence takes any. Else every number of
occurrences that can be announced is read from the count alone. -/
theorem occurrences_bounded {t : FieldType} (repeated : t.kind.isRepeated = true) :
    (∀ c : RecordRead t,
      t.countWidth + c.elements.length * leastOfMembers t.children ≤ c.taken) ∧
    ((∀ c : RecordRead t, t.countWidth + c.elements.length ≤ c.taken) ↔
      leastOfMembers t.children ≠ 0) ∧
    (leastOfMembers t.children = 0 → ∀ order count, t.Counts count →
      ∃ c : RecordRead t, c.record = .ofList order (t.countLayout order count) ∧
        c.elements.length = count ∧ c.taken = t.countWidth) := by
  refine ⟨fun c => c.least_taken repeated, ⟨?_, ?_⟩, fun weightless order count =>
    RecordRead.exists_of_weightless repeated weightless order⟩
  · intro bounded weightless
    have one : t.Counts 1 := by
      unfold FieldType.Counts
      split <;> first | rfl | decide
    obtain ⟨c, -, length, taken⟩ := RecordRead.exists_of_weightless repeated weightless .big one
    have fewer := bounded c
    omega
  · intro weight c
    have each := Nat.le_mul_of_pos_right c.elements.length (Nat.pos_of_ne_zero weight)
    have least := c.least_taken repeated
    omega

namespace Sample

def counters : FieldType :=
  .periodic "PE" [.ofKind (.binary .one false) "U1", .ofKind (.pseudo .phonetic) "PH"]

def sounds : FieldType :=
  .periodic "PE" [.ofKind (.pseudo .phonetic) "PH"]

end Sample

theorem counters_bounded : Sample.counters.kind.isRepeated = true ∧
    leastOfMembers Sample.counters.children = 1 ∧
    ∃ c : RecordRead Sample.counters, c.record = .ofList .big [0, 0, 0, 2, 7, 8] ∧
      c.elements.length = 2 ∧ c.taken = 6 ∧ 4 + c.elements.length * 1 ≤ c.taken := by
  let c : RecordRead Sample.counters :=
    ⟨.ofCall false 0, rfl, ⟨Sample.counters, .openSystem, 0, 0⟩, rfl, [],
      .ofList .big [0, 0, 0, 2, 7, 8], _, _, rfl⟩
  exact ⟨rfl, rfl, c, rfl, rfl, rfl, (occurrences_bounded (t := Sample.counters) rfl).1 c⟩

theorem sounds_unbounded : ∃ c : RecordRead Sample.sounds,
    c.record = .ofList .big [0, 0, 0, 3] ∧ c.elements.length = 3 ∧ c.taken = 4 :=
  ⟨⟨.ofCall false 0, rfl, ⟨Sample.sounds, .openSystem, 0, 0⟩, rfl, [], .ofList .big [0, 0, 0, 3],
    _, _, rfl⟩, rfl, rfl, rfl⟩

end Value

end RecordCodec
