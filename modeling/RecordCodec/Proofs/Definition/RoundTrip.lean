import Mathlib.Data.List.Forall2
import RecordCodec.Libraries.Standard
import RecordCodec.Proofs.Definition.Assignments
import RecordCodec.Proofs.Value.Exchange

/-!
Whole records. What a definition stores after any assignments, a fresh one of the same fields reads.
-/
namespace RecordCodec

/-- A value reads as another one did; a text without bytes has become a blank. -/
structure Value.ReadsAs [Libraries] (v v' : Value) : Prop where
  place : v'.place = v.place
  bytes : v.isEmptyText = false → v'.bytes = v.bytes
  text : (∀ part ∈ v.walk, part.isEmptyText = false) → v'.text = v.text
  blank : v.isEmptyText = true → v'.bytes = [0x20]

theorem Value.readsAs_written [Libraries] (v : Value) : v.ReadsAs v.written where
  place := v.place_written
  bytes := by
    intro given
    cases v with
    | leaf l => exact (leaf_written given).1
    | node p elements => rfl
  text := v.text_written
  blank := by
    intro empty
    obtain ⟨p, size, unicode, announced, rfl⟩ := isEmptyText_iff.mp empty
    rfl

namespace Definition

theorem storeValues_eq_storeMembers {order : ByteOrder} {r : Request} {vs : List Value}
    (writable : ∀ v ∈ vs, v.type.isReadOnly = false) :
    storeValues order r vs = Value.storeMembers order r vs := by
  induction vs with
  | nil => rfl
  | cons v vs ih =>
    rw [storeValues, Value.storeMembers, writable v (List.mem_cons_self ..),
      ih fun u hu => writable u (List.mem_cons_of_mem v hu)]
    rfl

theorem Unrepeated.exchanged_value {d : Definition} (unrepeated : d.Unrepeated) {v : Value}
    (inside : v ∈ d.values) : v.type.Exchanged := by
  have listed : v.place ∈ d.values.map Value.place := List.mem_map_of_mem inside
  rw [unrepeated.places] at listed
  obtain ⟨t, ht, same⟩ := List.mem_map.mp listed
  rw [Value.type, ← same]
  exact unrepeated.exchanged t ht

theorem Unrepeated.store_eq {d : Definition} (unrepeated : d.Unrepeated) {r : Request}
    (store : r.store = true) :
    d.store r = Value.storeMembers d.platform.byteOrder r d.values := by
  have whole := fun v (inside : v ∈ d.values) => (unrepeated.exchanged_value inside).whole
  have all : d.values.filter (takesPart r) = d.values := by
    apply List.filter_eq_self.mpr
    intro v inside
    simp [takesPart, store, (whole v inside).written, (whole v inside).kept]
  rw [Definition.store, all]
  exact storeValues_eq_storeMembers fun v inside => (whole v inside).written

/-- A record carries the values of a definition over to another one: a store writes it, a read takes
all of it, and field by field, at every depth, the values read as they were. -/
structure Carries [Libraries] (storing reading : Request) (source fresh : Definition)
    (record : List UInt8)
    (parsed : Definition) : Prop where
  stored : source.store storing = .ok ⟨record, .none⟩
  read : fresh.parse reading record = (parsed, .ok .none)
  consumed : ∃ queue, queue.rest = [] ∧
    Value.parseMembers reading (.ofList fresh.platform.byteOrder record) fresh.values =
      (parsed.values, .ok ⟨queue, .none⟩)
  types : parsed.types = source.types
  values : parsed.values = Value.writtenMembers source.values
  fields : List.Forall₂ Value.ReadsAs (Value.walkMembers source.values)
    (Value.walkMembers parsed.values)

/-- After any assignments a first store succeeds, and a fresh definition of the same fields reads
the record. -/
theorem record_round_trip [Libraries] {platform : Platform} {types : List FieldType}
    {fresh : Definition}
    (defined : ofTypes platform types = .ok fresh) (exchanged : ∀ t ∈ types, t.Exchanged)
    (steps : List (String × Scalar)) {storing reading : Request} (store : storing.store = true)
    (first : storing.call = 0) (firstRead : reading.call = 0) :
    ∃ record parsed, Carries storing reading (fresh.afterAll steps) fresh record parsed := by
  obtain ⟨start, -, -⟩ := unrepeated_ofTypes exchanged defined
  obtain ⟨reached, platform', types'⟩ := unrepeated_afterAll start steps
  obtain ⟨record, stored, read⟩ := Value.exchanges_members fresh.platform.byteOrder
    fun v inside => ⟨Value.exchanges (reached.values v inside) (reached.exchanged_value inside) _,
      (reached.exchanged_value inside).whole.written⟩
  have places : fresh.values.map Value.place = (fresh.afterAll steps).values.map Value.place := by
    rw [start.places, reached.places, types', platform']
  have parsed := read fresh.values start.values places reading [] []
    (by simp [Request.isFollowUp, firstRead])
  rw [List.append_nil, List.append_nil] at parsed
  refine ⟨record, { fresh with values := Value.writtenMembers (fresh.afterAll steps).values },
    ?stored, ?read, ⟨_, rfl, parsed⟩, types'.symm, rfl, ?fields⟩
  case stored =>
    rw [reached.store_eq store, platform']
    exact stored storing (by simp [Request.isFollowUp, first])
  case read =>
    rw [parse]
    simp only [ByteQueue.ofList, parsed]
    rfl
  case fields =>
    rw [Value.walkMembers_written, List.forall₂_map_right_iff, List.forall₂_same]
    exact fun v _ => v.readsAs_written

def carriedTypes : List FieldType :=
  [.ofKind (.binary .two true) "AA",
    .group "GR" [{ FieldType.ofKind (.text .short false) "AB" with length := 0 },
      { FieldType.ofKind (.packed .number) "AC" with length := 3 }],
    .ofKind (.text .long true) "AD"]

def carried : Definition where
  platform := .lowOrderFirst
  types := carriedTypes
  index := [("AD", .ofKind (.text .long true) "AD"),
    ("AC", { FieldType.ofKind (.packed .number) "AC" with length := 3 }),
    ("AB", { FieldType.ofKind (.text .short false) "AB" with length := 0 }),
    ("GR", .group "GR" [{ FieldType.ofKind (.text .short false) "AB" with length := 0 },
      { FieldType.ofKind (.packed .number) "AC" with length := 3 }]),
    ("AA", .ofKind (.binary .two true) "AA")]
  values := carriedTypes.map (FieldType.fresh .lowOrderFirst)

/-- A group and an unknown name are refused; the text before the packed number stays empty. -/
def carriedSteps : List (String × Scalar) :=
  [("AA", .int (-2)), ("GR", .int 1), ("ZZ", .int 1), ("AC", .bytes [5, 0x7C]),
    ("AD", .text ['x', 'y'])]

theorem carried_round_trip :
    ofTypes .lowOrderFirst carriedTypes = .ok carried ∧ (∀ t ∈ carriedTypes, t.Exchanged) ∧
      (carried.afterAll carriedSteps).store (.ofCall true 0) =
        .ok (.whole [0xFE, 0xFF, 2, 0x20, 0, 5, 0x7C, 4, 0, 0x78, 0x79]) ∧
      ∃ record parsed, Carries (.ofCall true 0) (.ofCall false 0)
        (carried.afterAll carriedSteps) carried record parsed := by
  have defined : ofTypes .lowOrderFirst carriedTypes = .ok carried := rfl
  have exchanged : ∀ t ∈ carriedTypes, t.Exchanged := by
    intro t ht
    simp only [carriedTypes, List.mem_cons, List.not_mem_nil, or_false] at ht
    rcases ht with rfl | rfl | rfl
    · exact .field ⟨rfl, rfl, rfl⟩ trivial
    · refine .group ⟨rfl, rfl, rfl⟩ rfl ?_
      intro m hm
      simp only [FieldType.group, List.mem_cons, List.not_mem_nil, or_false] at hm
      rcases hm with rfl | rfl
      · exact .field ⟨rfl, rfl, rfl⟩ trivial
      · exact .field ⟨rfl, rfl, rfl⟩ (by simp [FieldKind.Exchanged, FieldType.ofKind])
    · exact .field ⟨rfl, rfl, rfl⟩ trivial
  exact ⟨defined, exchanged, rfl,
    record_round_trip defined exchanged carriedSteps rfl rfl rfl⟩

end Definition

end RecordCodec
