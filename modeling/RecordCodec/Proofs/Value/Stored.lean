import RecordCodec.Definition.Record
import RecordCodec.Proofs.Request
import RecordCodec.Proofs.Value.Walk

/-!
The fields that a store writes, in order and without the structures around them, and what each of
them contributes to the calls of a store.
-/
namespace RecordCodec

namespace Chunk

theorem empty_append (c : Chunk) : empty.append c = c := by
  obtain ⟨bytes, followUp⟩ := c
  cases followUp <;> rfl

theorem append_empty (c : Chunk) : c.append empty = c := by
  obtain ⟨bytes, followUp⟩ := c
  rw [append, empty, List.append_nil]
  rfl

theorem append_assoc (a b c : Chunk) : (a.append b).append c = a.append (b.append c) := by
  simp only [append, List.append_assoc, FollowUp.join_assoc]

end Chunk

/-- A field that takes part in stores, and whether a repeated field is around it. -/
structure StoredField where
  repeated : Bool
  leaf : Leaf

namespace Value

mutual

def storedFields (repeated : Bool) : Value → List StoredField
  | leaf l => [⟨repeated, l⟩]
  | node p elements => storedInElements (repeated || p.type.kind.isRepeated) elements

def storedInElements (repeated : Bool) : List (List Value) → List StoredField
  | [] => []
  | element :: rest => storedInMembers repeated element ++ storedInElements repeated rest

def storedInMembers (repeated : Bool) : List Value → List StoredField
  | [] => []
  | v :: rest =>
    if v.type.isReadOnly then storedInMembers repeated rest
    else v.storedFields repeated ++ storedInMembers repeated rest

end

end Value

def Definition.storedFields (d : Definition) : List StoredField :=
  (d.values.filter fun v => !v.type.isReadOnly && !v.type.hasFlag .toBeRemoved).flatMap
    (Value.storedFields false)

namespace StoredField

variable {order : ByteOrder} {r : Request}

/-- What the field writes in a call. In a repeated field only the first call writes something. -/
def chunk (order : ByteOrder) (r : Request) (f : StoredField) : Except FieldFault Chunk :=
  if f.repeated && r.isFollowUp then .ok .empty else f.leaf.store order r

def bytes (order : ByteOrder) (r : Request) (f : StoredField) : List UInt8 :=
  match f.chunk order r with
  | .ok c => c.bytes
  | .error _ => []

def tokens (r : Request) (f : StoredField) : List Token :=
  if f.repeated && r.isFollowUp then [] else (f.leaf.token? r).toList

def storeAll (order : ByteOrder) (r : Request) : List StoredField → Except FieldFault Chunk
  | [] => .ok .empty
  | f :: rest => do
    let first ← f.chunk order r
    let others ← storeAll order r rest
    return first.append others

theorem storeAll_append (a b : List StoredField) :
    storeAll order r (a ++ b) = (do
      let first ← storeAll order r a
      let others ← storeAll order r b
      return first.append others) := by
  induction a with
  | nil =>
    cases stored : storeAll order r b with
    | error fault => simp [storeAll, stored, bind, Except.bind]
    | ok c => simp [storeAll, stored, bind, Except.bind, pure, Except.pure, Chunk.empty_append]
  | cons f rest ih =>
    rw [List.cons_append, storeAll, storeAll, ih]
    cases f.chunk order r with
    | error fault => rfl
    | ok c =>
      cases storeAll order r rest with
      | error fault => rfl
      | ok c' =>
        cases storeAll order r b with
        | error fault => rfl
        | ok c'' => exact congrArg Except.ok (Chunk.append_assoc c c' c'').symm

theorem storeAll_repeated {fields : List StoredField} (all : ∀ f ∈ fields, f.repeated = true)
    (later : r.isFollowUp = true) : storeAll order r fields = .ok .empty := by
  induction fields with
  | nil => rfl
  | cons f rest ih =>
    obtain ⟨here, others⟩ := List.forall_mem_cons.mp all
    have nothing : f.chunk order r = .ok .empty := by
      rw [chunk, here, later]
      rfl
    rw [storeAll, nothing, ih others]
    rfl

theorem ok_of_storeAll {fields : List StoredField} {c : Chunk}
    (h : storeAll order r fields = .ok c) : ∀ f ∈ fields, ∃ c, f.chunk order r = .ok c := by
  induction fields generalizing c with
  | nil =>
    intro f none
    cases none
  | cons f rest ih =>
    obtain ⟨first, stored, h⟩ := Outcome.bind_ok.mp h
    obtain ⟨others, storedRest, h⟩ := Outcome.bind_ok.mp h
    exact List.forall_mem_cons.mpr ⟨⟨first, stored⟩, ih storedRest⟩

end StoredField

namespace Value

open StoredField

variable {order : ByteOrder} {r : Request}

mutual

theorem repeated_storedFields (v : Value) : ∀ f ∈ v.storedFields true, f.repeated = true := by
  match v with
  | leaf l =>
    intro f inside
    rw [List.mem_singleton.mp inside]
  | node p elements => exact repeated_storedInElements elements

theorem repeated_storedInElements (elements : List (List Value)) :
    ∀ f ∈ storedInElements true elements, f.repeated = true := by
  match elements with
  | [] =>
    intro f none
    cases none
  | element :: rest =>
    intro f inside
    rcases List.mem_append.mp inside with here | later
    · exact repeated_storedInMembers element f here
    · exact repeated_storedInElements rest f later

theorem repeated_storedInMembers (members : List Value) :
    ∀ f ∈ storedInMembers true members, f.repeated = true := by
  match members with
  | [] =>
    intro f none
    cases none
  | v :: rest =>
    intro f inside
    rw [storedInMembers] at inside
    split at inside
    · exact repeated_storedInMembers rest f inside
    · rcases List.mem_append.mp inside with here | later
      · exact repeated_storedFields v f here
      · exact repeated_storedInMembers rest f later

end

mutual

/-- A store of a value writes its fields, one after another. Inside of a repeated field only the
first call comes to it. -/
theorem store_eq (v : Value) (repeated : Bool) (reached : repeated = true → r.isFollowUp = false) :
    v.store order r = storeAll order r (v.storedFields repeated) := by
  match v with
  | leaf l =>
    have here : (StoredField.mk repeated l).chunk order r = l.store order r := by
      unfold chunk
      cases repeated with
      | false => rfl
      | true => rw [reached rfl]; rfl
    rw [store, storedFields, storeAll, here, storeAll]
    cases l.store order r with
    | error fault => rfl
    | ok c => exact congrArg Except.ok (Chunk.append_empty c).symm
  | node p elements =>
    rw [store, storedFields]
    by_cases skipped : (p.type.kind.isRepeated && r.isFollowUp) = true
    · obtain ⟨isRepeated, later⟩ := Bool.and_eq_true_iff.mp skipped
      rw [if_pos skipped, isRepeated, Bool.or_true]
      exact (storeAll_repeated (repeated_storedInElements elements) later).symm
    · rw [if_neg skipped]
      apply storeElements_eq
      intro inside
      rcases Bool.or_eq_true_iff.mp inside with outer | here
      · exact reached outer
      · simpa [here] using skipped

theorem storeElements_eq (elements : List (List Value)) (repeated : Bool)
    (reached : repeated = true → r.isFollowUp = false) :
    storeElements order r elements = storeAll order r (storedInElements repeated elements) := by
  match elements with
  | [] => rfl
  | element :: rest =>
    rw [storeElements, storedInElements, storeAll_append, storeMembers_eq element repeated reached,
      storeElements_eq rest repeated reached]

theorem storeMembers_eq (members : List Value) (repeated : Bool)
    (reached : repeated = true → r.isFollowUp = false) :
    storeMembers order r members = storeAll order r (storedInMembers repeated members) := by
  match members with
  | [] => rfl
  | v :: rest =>
    rw [storeMembers, storedInMembers]
    split
    · exact storeMembers_eq rest repeated reached
    · rw [storeAll_append, store_eq v repeated reached, storeMembers_eq rest repeated reached]

end

theorem tokens_repeated {fields : List StoredField} (all : ∀ f ∈ fields, f.repeated = true)
    (later : r.isFollowUp = true) : fields.flatMap (StoredField.tokens r) = [] := by
  apply List.flatMap_eq_nil_iff.mpr
  intro f inside
  rw [StoredField.tokens, all f inside, later]
  rfl

mutual

theorem tokens_eq (writes : r.store = true) (v : Value) (repeated : Bool)
    (reached : repeated = true → r.isFollowUp = false) :
    v.tokens r = (v.storedFields repeated).flatMap (StoredField.tokens r) := by
  match v with
  | leaf l =>
    rw [tokens, storedFields, List.flatMap_singleton, StoredField.tokens]
    cases repeated with
    | false => rfl
    | true => rw [reached rfl]; rfl
  | node p elements =>
    rw [tokens, storedFields, writes, Bool.not_true, Bool.and_false]
    by_cases skipped : (p.type.kind.isRepeated && r.isFollowUp) = true
    · obtain ⟨isRepeated, later⟩ := Bool.and_eq_true_iff.mp skipped
      rw [if_pos skipped, isRepeated, Bool.or_true]
      exact (tokens_repeated (repeated_storedInElements elements) later).symm
    · rw [if_neg skipped]
      apply elementTokens_eq writes
      intro inside
      rcases Bool.or_eq_true_iff.mp inside with outer | here
      · exact reached outer
      · simpa [here] using skipped

theorem elementTokens_eq (writes : r.store = true) (elements : List (List Value)) (repeated : Bool)
    (reached : repeated = true → r.isFollowUp = false) :
    elementTokens r elements =
      (storedInElements repeated elements).flatMap (StoredField.tokens r) := by
  match elements with
  | [] => rfl
  | element :: rest =>
    rw [elementTokens, storedInElements, List.flatMap_append,
      memberTokens_eq writes element repeated reached,
      elementTokens_eq writes rest repeated reached]

theorem memberTokens_eq (writes : r.store = true) (members : List Value) (repeated : Bool)
    (reached : repeated = true → r.isFollowUp = false) :
    memberTokens r members = (storedInMembers repeated members).flatMap (StoredField.tokens r) := by
  match members with
  | [] => rfl
  | v :: rest =>
    rw [memberTokens, storedInMembers, writes, Bool.true_and]
    split
    · exact memberTokens_eq writes rest repeated reached
    · rw [List.flatMap_append, tokens_eq writes v repeated reached,
        memberTokens_eq writes rest repeated reached]

end

end Value

namespace Value

theorem mem_storedInMembers {repeated : Bool} {vs : List Value} {f : StoredField}
    (inside : f ∈ storedInMembers repeated vs) : ∃ v ∈ vs, f ∈ v.storedFields repeated := by
  induction vs with
  | nil => cases inside
  | cons v rest ih =>
    rw [storedInMembers] at inside
    split at inside
    · obtain ⟨u, listed, inside⟩ := ih inside
      exact ⟨u, List.mem_cons_of_mem v listed, inside⟩
    · rcases List.mem_append.mp inside with here | later
      · exact ⟨v, List.mem_cons_self .., here⟩
      · obtain ⟨u, listed, inside⟩ := ih later
        exact ⟨u, List.mem_cons_of_mem v listed, inside⟩

theorem mem_storedInElements {repeated : Bool} {elements : List (List Value)} {f : StoredField}
    (inside : f ∈ storedInElements repeated elements) :
    ∃ element ∈ elements, ∃ v ∈ element, f ∈ v.storedFields repeated := by
  induction elements with
  | nil => cases inside
  | cons element rest ih =>
    rcases List.mem_append.mp inside with here | later
    · exact ⟨element, List.mem_cons_self .., mem_storedInMembers here⟩
    · obtain ⟨e, listed, inside⟩ := ih later
      exact ⟨e, List.mem_cons_of_mem element listed, inside⟩

/-- A stored field is a field of the value. One that counts as repeated stands in a repeated
field. -/
theorem walk_of_storedFields {v : Value} (formed : v.WellFormed) {repeated : Bool}
    {f : StoredField} (inside : f ∈ v.storedFields repeated) : leaf f.leaf ∈ v.walk ∧
      (f.repeated = true → repeated = true ∨ ∃ u ∈ v.type.walk, u.kind.isRepeated = true ∧
        f.leaf.place.type ∈ FieldType.walkAll u.children) := by
  induction formed generalizing repeated with
  | @leaf l typed =>
    rw [List.mem_singleton.mp inside]
    exact ⟨by simp [walk], .inl⟩
  | @node p elements kind places all ih =>
    have formed : (Value.node p elements).WellFormed := .node kind places all
    obtain ⟨element, listed, v, member, inside⟩ := mem_storedInElements inside
    obtain ⟨deep, around⟩ := ih element listed v member inside
    have child := (formed.member listed member).2
    refine ⟨mem_walk_node.mpr (.inr ⟨element, listed, v, member, deep⟩), fun within => ?_⟩
    rcases around within with outer | ⟨u, inner, isRepeated, field⟩
    · rcases Bool.or_eq_true_iff.mp outer with outer | here
      · exact .inl outer
      · have field := (WellFormed.of_mem_walk (all element listed v member) _ deep).2
        exact .inr ⟨p.type, FieldType.mem_walk_self _, here,
          FieldType.mem_walkAll.mpr ⟨_, child, field⟩⟩
    · exact .inr ⟨u, FieldType.mem_walk_of_children (FieldType.mem_walkAll.mpr ⟨_, child, inner⟩),
        isRepeated, field⟩

theorem indexes_of_storedFields {v : Value} (formed : v.WellFormed) {repeated : Bool}
    {f : StoredField} (periodic : v.place.periodicIndex = 0) (multiple : v.place.multipleIndex = 0)
    (inside : f ∈ v.storedFields repeated) (plain : f.repeated = false) :
    f.leaf.place.periodicIndex = 0 ∧ f.leaf.place.multipleIndex = 0 := by
  induction formed generalizing repeated with
  | @leaf l typed =>
    rw [List.mem_singleton.mp inside]
    exact ⟨periodic, multiple⟩
  | @node p elements kind places all ih =>
    have formed : (Value.node p elements).WellFormed := .node kind places all
    obtain ⟨element, listed, v, member, inside⟩ := mem_storedInElements inside
    have single : p.type.kind.isRepeated = false := by
      apply Bool.eq_false_iff.mpr
      intro isRepeated
      rw [isRepeated, Bool.or_true] at inside
      cases plain.symm.trans (repeated_storedFields v f inside)
    obtain ⟨samePeriodic, zero⟩ := formed.member_indexes single listed member
    exact ih element listed v member (samePeriodic.trans periodic) zero inside

theorem storedInMembers_of {repeated : Bool} {vs : List Value} {v : Value} (inside : v ∈ vs)
    (written : v.type.isReadOnly = false) :
    ∀ f ∈ v.storedFields repeated, f ∈ storedInMembers repeated vs := by
  intro f stored
  induction vs with
  | nil => cases inside
  | cons u rest ih =>
    rw [storedInMembers]
    rcases List.mem_cons.mp inside with rfl | later
    · rw [if_neg (by simp [written])]
      exact List.mem_append_left _ stored
    · split
      · exact ih later
      · exact List.mem_append_right _ (ih later)

theorem storedInElements_of {repeated : Bool} {elements : List (List Value)} {element : List Value}
    (inside : element ∈ elements) :
    ∀ f ∈ storedInMembers repeated element, f ∈ storedInElements repeated elements := by
  intro f stored
  induction elements with
  | nil => cases inside
  | cons e rest ih =>
    rcases List.mem_cons.mp inside with rfl | later
    · exact List.mem_append_left _ stored
    · exact List.mem_append_right _ (ih later)

theorem storedFields_of_walk {v : Value} (formed : v.WellFormed)
    (written : ∀ w ∈ v.walk, w.type.isReadOnly = false) (repeated : Bool) {l : Leaf}
    (inside : leaf l ∈ v.walk) : ∃ f ∈ v.storedFields repeated, f.leaf = l := by
  induction formed generalizing repeated with
  | @leaf l' typed =>
    rw [walk, List.mem_singleton] at inside
    cases inside
    exact ⟨_, List.mem_singleton.mpr rfl, rfl⟩
  | @node p elements kind places all ih =>
    rcases mem_walk_node.mp inside with same | ⟨element, listed, v, member, deep⟩
    · cases same
    · have within := fun w (deep : w ∈ v.walk) =>
        written w (mem_walk_node.mpr (.inr ⟨element, listed, v, member, deep⟩))
      obtain ⟨f, stored, same⟩ := ih element listed v member within
        (repeated || p.type.kind.isRepeated) deep
      exact ⟨f, storedInElements_of listed f (storedInMembers_of member
        (within v v.mem_walk_self) f stored), same⟩

end Value

namespace Definition

open StoredField

variable {order : ByteOrder} {r : Request}

theorem storeValues_eq (vs : List Value) :
    storeValues order r vs = storeAll order r (vs.flatMap (Value.storedFields false)) := by
  induction vs with
  | nil => rfl
  | cons v rest ih =>
    rw [storeValues, List.flatMap_cons, storeAll_append, ih,
      Value.store_eq v false (fun none => by cases none)]

theorem takesPart_store (writes : r.store = true) :
    takesPart r = fun v => !v.type.isReadOnly && !v.type.hasFlag .toBeRemoved := by
  funext v
  rw [takesPart, writes]
  rfl

theorem store_eq (writes : r.store = true) (d : Definition) :
    d.store r = storeAll d.platform.byteOrder r d.storedFields := by
  rw [store, storeValues_eq, storedFields, takesPart_store writes]

theorem map_tokens (writes : r.store = true) (vs : List Value) :
    vs.map (Value.tokens r) =
      (vs.map (Value.storedFields false)).map (List.flatMap (StoredField.tokens r)) := by
  rw [List.map_map]
  exact List.map_congr_left fun v _ => Value.tokens_eq writes v false fun none => by cases none

theorem tokens_eq (writes : r.store = true) (d : Definition) :
    d.tokens r = d.storedFields.flatMap (StoredField.tokens r) := by
  rw [tokens, storedFields, takesPart_store writes, List.flatMap_assoc, List.flatMap,
    map_tokens writes, List.map_map]
  rfl

end Definition

end RecordCodec
