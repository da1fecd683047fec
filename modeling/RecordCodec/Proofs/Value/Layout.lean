import RecordCodec.Proofs.Ieee.Exact
import RecordCodec.Proofs.Value.Parts

/-!
Values with occurrences in a record. A repeated field has its count in front, unless one occurrence
of it is asked for by number, and its occurrences one after another. A read takes this layout
exactly, and numbers the occurrences from the first one that is asked for.
-/
namespace RecordCodec

/-- Elements that a structure can have in a record: one for a group and for an occurrence asked for
by number, else as many as four bytes count. -/
def FieldType.Counts (t : FieldType) (n : Nat) : Prop :=
  match t.kind.isRepeated, t.occurrence with
  | false, _ | true, .index _ => n = 1
  | true, _ => n < Bytes.capacity 4

def FieldType.countLayout (order : ByteOrder) (t : FieldType) (n : Nat) : List UInt8 :=
  match t.kind.isRepeated, t.occurrence with
  | false, _ | true, .index _ => []
  | true, _ => order.encode 4 n

def Leaf.layout (order : ByteOrder) (l : Leaf) : List UInt8 :=
  match l.content with
  | .integer width _ v => IntegerField.encode order width v
  | .float wide bits => FloatField.encode order wide bits
  | .octets bytes | .packed _ bytes | .unpacked bytes => order.frame 1 l.place.type.length bytes
  | .text size _ c => order.frame size.header l.place.type.length c.bytes
  | .superDescriptor bytes => bytes
  | .pseudo => []

/-- A field with a content that a record carries in one piece. -/
structure Leaf.Carried (platform : Platform) (l : Leaf) : Prop where
  platform : l.place.platform = platform
  typed : l.Typed
  suited : l.Suited
  unrestricted : l.place.type.partialRange = none
  small : l.place.type.isLob = false
  extent : match l.content with
    | .packed _ bytes | .unpacked bytes => Occupies 1 l.place.type.length bytes.length
    | .superDescriptor bytes => bytes.length = l.place.type.length
    | _ => True

/-- The content as a read finds it: a text announces its bytes, and a number of four bytes is
rounded to them. -/
def Content.reread : Content → Content
  | .float wide bits => .float wide (FloatField.widen wide (FloatField.narrow wide bits))
  | .text size unicode c => .text size unicode (.whole c.bytes)
  | content => content

namespace Value

mutual

def layout (order : ByteOrder) : Value → List UInt8
  | leaf l => l.layout order
  | node p elements => p.type.countLayout order elements.length ++ elementsLayout order elements

def elementsLayout (order : ByteOrder) : List (List Value) → List UInt8
  | [] => []
  | element :: rest => membersLayout order element ++ elementsLayout order rest

def membersLayout (order : ByteOrder) : List Value → List UInt8
  | [] => []
  | v :: rest => v.layout order ++ membersLayout order rest

end

/-- A value that a record carries: every element of a structure has one value for each field. -/
inductive Carried (platform : Platform) : Value → Prop where
  | leaf {l : Leaf} (carried : l.Carried platform) : Carried platform (.leaf l)
  | node {p : Place} {elements : List (List Value)} (kind : p.type.kind.isStructure = true)
      (counts : p.type.Counts elements.length)
      (types : ∀ element ∈ elements, element.map type = p.type.children)
      (all : ∀ element ∈ elements, ∀ v ∈ element, Carried platform v) :
      Carried platform (.node p elements)

mutual

/-- The value as a read finds it, in the place of its field with the occurrence numbers `i` and
`j`. -/
def reread (platform : Platform) (i j : Nat) : Value → Value
  | leaf l => leaf ⟨⟨l.place.type, platform, i, j⟩, l.content.reread⟩
  | node p elements =>
    let place : Place := ⟨p.type, platform, i, j⟩
    node place (rereadElements place 0 elements)

/-- The elements of a structure from the one behind `k` others on. -/
def rereadElements (p : Place) (k : Nat) : List (List Value) → List (List Value)
  | [] => []
  | element :: rest =>
    let (i, j) := p.elementIndexes (p.type.occurrence.number k)
    rereadMembers p.platform i j element :: rereadElements p (k + 1) rest

def rereadMembers (platform : Platform) (i j : Nat) : List Value → List Value
  | [] => []
  | v :: rest => v.reread platform i j :: rereadMembers platform i j rest

end

end Value

namespace FieldType

theorem readAt_group {t : FieldType} (kind : t.kind = .group) (r : Request) (platform : Platform)
    (i j : Nat) (q : ByteQueue) : t.readAt r platform i j q =
      (readMembers r platform i 0 q t.children).map fun (members, left) =>
        (.node ⟨t, platform, i, j⟩ [members], left) := by
  cases t with
  | mk =>
    cases kind
    rw [readAt]
    cases readMembers r platform i 0 q _ <;> rfl

theorem readAt_repeated {t : FieldType} (repeated : t.kind.isRepeated = true) {r : Request}
    (first : r.isFollowUp = false) (platform : Platform) (i j : Nat) (q : ByteQueue) :
    t.readAt r platform i j q =
      (Place.readRepeated ⟨t, platform, i, j⟩ r q).map fun (elements, left) =>
        (.node ⟨t, platform, i, j⟩ elements, left) := by
  cases t with
  | mk kind shortName name length fraction options flags charset part children occurrence entries =>
    cases kind with
    | periodicGroup | multiple =>
      rw [readAt, first, Place.readRepeated]
      exact bind_pure_comp ..
    | binary | octets | float | packed | unpacked | text | group | superDescriptor | pseudo =>
      cases repeated

end FieldType

def FieldFault.IsShort (fault : FieldFault) : Prop :=
  fault.code = 38

namespace Leaf

variable {platform : Platform} {l : Leaf}

theorem reread_bytes (carried : l.Carried platform) (i j : Nat) :
    bytes ⟨⟨l.place.type, platform, i, j⟩, l.content.reread⟩ = l.bytes := by
  obtain ⟨p, content⟩ := l
  have same : p.platform = platform := carried.platform
  subst same
  cases content with
  | float wide bits =>
    show FloatField.encode _ wide _ = FloatField.encode _ wide bits
    rw [FloatField.encode, FloatField.encode, FloatField.narrow_widen]
  | integer | octets | packed | unpacked | text | superDescriptor | pseudo => rfl

theorem consumes_readContent (carried : l.Carried platform) {before : Content}
    (typed : before.IsOf l.place.type.kind)
    (moved : ∀ size unicode c, l.content ≠ .text size unicode c) (i j : Nat) (order : ByteOrder) :
    Consumes order (l.layout order) (fun _ => True)
      (readContent ⟨⟨l.place.type, platform, i, j⟩, before⟩) fun q => (l.content.reread, q) := by
  obtain ⟨p, content⟩ := l
  have kind : content.IsOf p.type.kind := carried.typed
  have suited : content.Suits p := carried.suited
  have extent := carried.extent
  have target := Content.IsOf.of_kind typed
  cases content with
  | text size unicode c => exact absurd rfl (moved size unicode c)
  | integer width signed v =>
    simp only [show p.type.kind = .binary width signed from kind] at target
    obtain ⟨v0, rfl⟩ := target
    cases suited with
    | integer _ low high =>
      exact (IntegerField.consumes_read low high order).map
        (Prod.map (Content.integer width signed) id)
  | octets bytes =>
    simp only [show p.type.kind = .octets from kind] at target
    obtain ⟨bytes0, rfl⟩ := target
    cases suited with
    | octets _ extent =>
      exact (consumes_readShort (p := ⟨p.type, platform, i, j⟩) extent order).map
        (Prod.map Content.octets id)
  | packed meaning bytes =>
    simp only [show p.type.kind = .packed meaning from kind] at target
    obtain ⟨bytes0, rfl⟩ := target
    exact (consumes_readShort (p := ⟨p.type, platform, i, j⟩) extent order).map
      (Prod.map (Content.packed meaning) id)
  | unpacked bytes =>
    simp only [show p.type.kind = .unpacked from kind] at target
    obtain ⟨bytes0, rfl⟩ := target
    exact (consumes_readShort (p := ⟨p.type, platform, i, j⟩) extent order).map
      (Prod.map Content.unpacked id)
  | float wide bits =>
    simp only [show p.type.kind = .float wide from kind] at target
    obtain ⟨bits0, rfl⟩ := target
    exact (Consumes.takeNat order (FloatField.narrow_lt wide bits)).map
      (Prod.map (fun n => Content.float wide (FloatField.widen wide n)) id)
  | superDescriptor bytes =>
    simp only [show p.type.kind = .superDescriptor from kind] at target
    obtain ⟨bytes0, rfl⟩ := target
    have length : bytes.length = p.type.length := extent
    have taken := Consumes.take order bytes
    rw [length] at taken
    exact taken.map (Prod.map Content.superDescriptor id)
  | pseudo =>
    have nothing : before = .pseudo := by
      cases same : p.type.kind with
      | pseudo => simpa [same] using target
      | _ =>
        have flat : p.type.kind.isPseudo = true := kind
        rw [same] at flat
        cases flat
    subst nothing
    exact Consumes.nothing _ _

theorem paired_parse {r : Request} (first : r.isFollowUp = false) {q : ByteQueue}
    (moved : ∀ size unicode c, l.content ≠ .text size unicode c) :
    Outcome.paired (l.parse r q) =
      ((l.readContent q).mapError .shortBuffer).map fun (content, q') =>
        ({ l with content }, .done q') := by
  obtain ⟨p, content⟩ := l
  cases content with
  | text size unicode c => exact absurd rfl (moved size unicode c)
  | pseudo => rfl
  | integer | octets | float | packed | unpacked | superDescriptor =>
    simp only [parse, first, Bool.false_eq_true, if_false]
    split <;>
      · rename_i read
        rw [read]
        rfl

theorem paired_parse_text {p : Place} {size : TextSize} {unicode : Bool} {c : TextContent}
    {r : Request} (first : r.isFollowUp = false) {q : ByteQueue}
    (unrestricted : p.type.partialRange = none) (small : TextField.isLob p size = false) :
    Outcome.paired (parse r q ⟨p, .text size unicode c⟩) =
      ((TextField.readWhole p size q).mapError .shortBuffer).map fun (bytes, q') =>
        (⟨p, .text size unicode (.whole bytes)⟩, .done q') := by
  simp only [parse, TextField.parse, first, unrestricted, small, Bool.false_eq_true, if_false]
  split <;>
    · rename_i read
      rw [read]
      rfl

theorem consumes_parse (carried : l.Carried platform) {before : Content}
    (typed : before.IsOf l.place.type.kind) {r : Request} (first : r.isFollowUp = false)
    (i j : Nat) (order : ByteOrder) :
    Consumes order (l.layout order) FieldFault.IsShort
      (fun q => Outcome.paired (parse r q ⟨⟨l.place.type, platform, i, j⟩, before⟩))
      fun q => (⟨⟨l.place.type, platform, i, j⟩, l.content.reread⟩, .done q) := by
  have short : ∀ shortage, True → (FieldFault.shortBuffer shortage).IsShort := fun _ _ => rfl
  by_cases text : ∃ size unicode c, l.content = .text size unicode c
  · obtain ⟨p, content⟩ := l
    obtain ⟨size, unicode, c, rfl⟩ := text
    have kind : p.type.kind = .text size unicode := carried.typed
    have target := typed.of_kind
    rw [kind] at target
    obtain ⟨c0, rfl⟩ := target
    have extent : Occupies size.header p.type.length c.bytes.length := by
      cases carried.suited with
      | text _ extent => exact extent carried.unrestricted
    have taken := (TextField.consumes_readWhole (p := ⟨p.type, platform, i, j⟩) extent
      order).mapError FieldFault.shortBuffer short
    exact (taken.map _).congr fun q => paired_parse_text (p := ⟨p.type, platform, i, j⟩) first
      carried.unrestricted ((TextField.isLob_of_kind kind).trans carried.small)
  · have moved : ∀ size unicode c, l.content ≠ .text size unicode c :=
      fun size unicode c same => text ⟨size, unicode, c, same⟩
    have unmoved : ∀ size unicode c, before ≠ .text size unicode c := by
      intro size unicode c same
      subst same
      have source := carried.typed.of_kind
      rw [show l.place.type.kind = .text size unicode from typed] at source
      obtain ⟨c', same⟩ := source
      exact moved size unicode c' same
    have taken := (consumes_readContent carried typed moved i j order).mapError
      FieldFault.shortBuffer short
    exact (taken.map _).congr fun q => paired_parse first unmoved

end Leaf

namespace FieldType

/-- One occurrence asked for by number has no count in front; else the count is as it was laid
down. -/
theorem consumes_occurrenceCount {p : Place} {n : Nat} (repeated : p.type.kind.isRepeated = true)
    (counts : p.type.Counts n) (order : ByteOrder) :
    Consumes order (p.type.countLayout order n) (fun _ => True) p.occurrenceCount
      fun q => (n, q) := by
  unfold Counts at counts
  unfold countLayout
  rw [repeated] at counts ⊢
  cases asked : p.type.occurrence with
  | index i =>
    rw [asked] at counts
    have one : n = 1 := counts
    subst one
    refine (Consumes.nothing _ fun q => (1, q)).congr fun q => ?_
    rw [Place.occurrenceCount, asked]
  | single | all | range =>
    rw [asked] at counts
    refine (Consumes.takeNat order counts).congr fun q => ?_
    rw [Place.occurrenceCount, asked]

end FieldType

namespace Value

variable {platform : Platform} {order : ByteOrder} {r : Request}

def ReadsBack (platform : Platform) (order : ByteOrder) (r : Request) (v : Value) : Prop :=
  ∀ i j, Consumes order (v.layout order) FieldFault.IsShort
    (fun q => v.type.readAt r platform i j q) fun q => (v.reread platform i j, ⟨q, .none⟩)

theorem consumes_readMembers {vs : List Value} (each : ∀ v ∈ vs, v.ReadsBack platform order r)
    (i j : Nat) :
    Consumes order (membersLayout order vs) FieldFault.IsShort
      (fun q => FieldType.readMembers r platform i j q (vs.map type))
      fun q => (rereadMembers platform i j vs, ⟨q, .none⟩) := by
  induction vs with
  | nil => exact Consumes.nothing _ _
  | cons v rest ih =>
    obtain ⟨here, later⟩ := List.forall_mem_cons.mp each
    have others := (ih later).map (Prod.map (v.reread platform i j :: ·) fun left =>
      Remainder.mk left.queue (FollowUp.none.join left.followUp))
    exact (here i j).bind _ (others.congr fun q => bind_pure_comp ..)

theorem consumes_readOccurrences {p : Place} {elements : List (List Value)}
    (types : ∀ element ∈ elements, element.map type = p.type.children)
    (each : ∀ element ∈ elements, ∀ v ∈ element, v.ReadsBack p.platform order r) (k : Nat) :
    Consumes order (elementsLayout order elements) FieldFault.IsShort
      (readOccurrences (fun k q =>
        let (i, j) := p.elementIndexes (p.type.occurrence.number k)
        FieldType.readMembers r p.platform i j q p.type.children) elements.length k)
      fun q => (rereadElements p k elements, ⟨q, .none⟩) := by
  induction elements generalizing k with
  | nil => exact Consumes.nothing _ _
  | cons element rest ih =>
    obtain ⟨sameHere, sameLater⟩ := List.forall_mem_cons.mp types
    obtain ⟨here, later⟩ := List.forall_mem_cons.mp each
    have first := consumes_readMembers here (p.elementIndexes (p.type.occurrence.number k)).1
      (p.elementIndexes (p.type.occurrence.number k)).2
    rw [sameHere] at first
    have others := (ih sameLater later (k + 1)).map (Prod.map
      (rereadMembers p.platform (p.elementIndexes (p.type.occurrence.number k)).1
        (p.elementIndexes (p.type.occurrence.number k)).2 element :: ·)
      fun left => Remainder.mk left.queue (FollowUp.none.join left.followUp))
    exact first.bind _ (others.congr fun q => bind_pure_comp ..)

theorem consumes_readRepeated {p : Place} {elements : List (List Value)}
    (repeated : p.type.kind.isRepeated = true) (counts : p.type.Counts elements.length)
    (types : ∀ element ∈ elements, element.map type = p.type.children)
    (each : ∀ element ∈ elements, ∀ v ∈ element, v.ReadsBack p.platform order r) :
    Consumes order (p.type.countLayout order elements.length ++ elementsLayout order elements)
      FieldFault.IsShort (p.readRepeated r)
      fun q => (rereadElements p 0 elements, ⟨q, .none⟩) := by
  have count := (FieldType.consumes_occurrenceCount repeated counts order).mapError
    FieldFault.shortBuffer fun _ _ => show FieldFault.IsShort _ from rfl
  refine (count.bind (fun counted => readOccurrences _ counted.1 0 counted.2)
    (consumes_readOccurrences types each 0)).congr fun q => ?_
  rw [Place.readRepeated, Place.readElements]
  cases p.occurrenceCount q <;> rfl

theorem group_layout {p : Place} {elements : List (List Value)} (group : p.type.kind = .group)
    (counts : p.type.Counts elements.length) (order : ByteOrder) (platform : Platform) (i j : Nat) :
    ∃ members, elements = [members] ∧
      (node p elements).layout order = membersLayout order members ∧
      (node p elements).reread platform i j =
        node ⟨p.type, platform, i, j⟩ [rereadMembers platform i 0 members] := by
  have single : elements.length = 1 := by
    simpa [FieldType.Counts, group, FieldKind.isRepeated] using counts
  obtain ⟨members, rfl⟩ := List.length_eq_one_iff.mp single
  refine ⟨members, rfl, ?_, ?_⟩
  · simp [layout, FieldType.countLayout, group, FieldKind.isRepeated, elementsLayout]
  · simp [reread, rereadElements, Place.elementIndexes, group]

theorem consumes_readAt {v : Value} (carried : v.Carried platform) (first : r.isFollowUp = false)
    (order : ByteOrder) : v.ReadsBack platform order r := by
  induction carried with
  | @leaf l carried =>
    intro i j
    have fresh := Content.isOf_initial (p := ⟨l.place.type, platform, i, j⟩) carried.typed.flat
    refine ((Leaf.consumes_parse carried fresh first i j order).map (Prod.map Value.leaf
      fun progress => Remainder.mk progress.queue progress.followUp)).congr fun q => ?_
    rw [type, place, FieldType.readAt_leaf carried.typed.flat, Outcome.paired]
    split <;>
      · rename_i parsed
        rw [Leaf.fresh] at parsed
        rw [parsed]
        rfl
  | @node p elements kind counts types all ih =>
    intro i j
    by_cases repeated : p.type.kind.isRepeated = true
    · have read := consumes_readRepeated (p := ⟨p.type, platform, i, j⟩) repeated counts types ih
      exact (read.map _).congr fun q => FieldType.readAt_repeated repeated first platform i j q
    · have group : p.type.kind = .group := by
        cases same : p.type.kind <;> simp_all [FieldKind.isRepeated, FieldKind.isStructure]
      obtain ⟨members, rfl, bytes, result⟩ := group_layout group counts order platform i j
      have read := consumes_readMembers (ih members (List.mem_cons_self ..)) i 0
      rw [types members (List.mem_cons_self ..)] at read
      rw [bytes, result]
      exact (read.map _).congr fun q => FieldType.readAt_group group r platform i j q

/-- A value that can be read in place: outside of repeated fields each group has one element. -/
inductive Ready : Value → Prop where
  | leaf {l : Leaf} (typed : l.Typed) : Ready (.leaf l)
  | repeated {p : Place} {elements : List (List Value)} (kind : p.type.kind.isRepeated = true) :
      Ready (.node p elements)
  | group {p : Place} {members : List Value} (kind : p.type.kind = .group)
      (places : members.map place = p.memberPlaces 0) (all : ∀ v ∈ members, Ready v) :
      Ready (.node p [members])

def Fills (order : ByteOrder) (r : Request) (u : Value) : Prop :=
  ∀ t platform i j, u.place = ⟨t, platform, i, j⟩ → ∀ v : Value, v.Carried platform → v.type = t →
    Consumes order (v.layout order) FieldFault.IsShort (fun q => Outcome.paired (u.parse r q))
      fun q => (v.reread platform i j, .done q)

theorem paired_parse_repeated {p : Place} (repeated : p.type.kind.isRepeated = true)
    (first : r.isFollowUp = false) (elements : List (List Value)) (q : ByteQueue) :
    Outcome.paired ((node p elements).parse r q) =
      (p.readRepeated r q).map fun (elements, left) =>
        (node p elements, ⟨left.queue, true, left.followUp⟩) := by
  rw [parse, repeated, first]
  rcases p.readRepeated r q with _ | ⟨elements', left⟩ <;> rfl

theorem paired_parse_group {p : Place} (single : p.type.kind.isRepeated = false)
    (members : List Value) (q : ByteQueue) : Outcome.paired ((node p [members]).parse r q) =
      (Outcome.paired (parseMembers r q members)).map fun (members, left) =>
        (node p [members], ⟨left.queue, true, left.followUp⟩) := by
  rw [parse, single, parseElements]
  rcases parseMembers r q members with ⟨members', _ | left⟩ <;> rfl

theorem consumes_parseMembers {us vs : List Value} {i j : Nat}
    (each : ∀ u ∈ us, u.Fills order r)
    (carried : ∀ v ∈ vs, v.Carried platform)
    (places : us.map place = (vs.map type).map fun t => ⟨t, platform, i, j⟩) :
    Consumes order (membersLayout order vs) FieldFault.IsShort
      (fun q => Outcome.paired (parseMembers r q us))
      fun q => (rereadMembers platform i j vs, ⟨q, .none⟩) := by
  induction us generalizing vs with
  | nil =>
    cases vs with
    | nil => exact Consumes.nothing _ _
    | cons v vs => cases places
  | cons u us ih =>
    cases vs with
    | nil => cases places
    | cons v vs =>
      obtain ⟨here, later⟩ := List.forall_mem_cons.mp each
      obtain ⟨carriedHere, carriedLater⟩ := List.forall_mem_cons.mp carried
      obtain ⟨same, sameLater⟩ := List.cons.inj places
      have filled := here _ _ _ _ same v carriedHere rfl
      have others := (ih later carriedLater sameLater).map (Prod.map (v.reread platform i j :: ·)
        fun left => Remainder.mk left.queue (FollowUp.none.join left.followUp))
      exact (filled.bind _ others).congr fun q => paired_parseMembers_cons u us q

theorem fills_of_ready {u : Value} (ready : u.Ready) (first : r.isFollowUp = false)
    (order : ByteOrder) : u.Fills order r := by
  induction ready with
  | @leaf l0 typed =>
    intro t platform i j here v carried same
    obtain ⟨p, before⟩ := l0
    cases here
    have flat : v.type.kind.isStructure = false := same ▸ typed.flat
    cases carried with
    | node kind => cases kind.symm.trans flat
    | @leaf l carried =>
      cases same
      exact ((Leaf.consumes_parse carried typed first i j order).map _).congr
        fun q => paired_parse_leaf _ q
  | @repeated p elements0 repeated =>
    intro t platform i j here v carried same
    cases here
    cases carried with
    | leaf carried =>
      cases same
      cases (FieldKind.isStructure_of_isRepeated repeated).symm.trans carried.typed.flat
    | node kind counts types all =>
      cases same
      have read := consumes_readRepeated (p := ⟨_, platform, i, j⟩) repeated counts types
        fun element inside v member => consumes_readAt (all element inside v member) first order
      exact (read.map _).congr fun q => paired_parse_repeated repeated first elements0 q
  | @group p members0 group places all ih =>
    intro t platform i j here v carried same
    cases here
    have single : t.kind.isRepeated = false := by
      rw [show t.kind = .group from group]
      rfl
    cases carried with
    | leaf carried =>
      cases same
      cases (congrArg FieldKind.isStructure group).symm.trans carried.typed.flat
    | @node p' elements kind counts types allCarried =>
      cases same
      obtain ⟨members, rfl, bytes, result⟩ := group_layout (p := p') group counts order platform i j
      have fields := types members (List.mem_cons_self ..)
      have inside : Place.memberPlaces ⟨p'.type, platform, i, j⟩ 0 =
          (members.map type).map fun t => (⟨t, platform, i, 0⟩ : Place) := by
        rw [fields, Place.memberPlaces, Place.elementIndexes, show p'.type.kind = .group from group]
      have filled := consumes_parseMembers ih (allCarried members (List.mem_cons_self ..))
        (places.trans inside)
      rw [bytes, result]
      exact (filled.map _).congr fun q =>
        paired_parse_group (p := ⟨p'.type, platform, i, j⟩) single members0 q

end Value

end RecordCodec
