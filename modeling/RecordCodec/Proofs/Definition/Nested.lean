import RecordCodec.Libraries.Standard
import RecordCodec.Proofs.Definition.Reached
import RecordCodec.Proofs.Value.Numbering

/-!
Whole records with periodic groups and multiple-value fields at any depth. A first read takes the
layout of the values exactly, rebuilds their occurrences and numbers them; it refuses every part of
the layout.
-/
namespace RecordCodec

namespace FieldType

mutual

theorem ready_freshAt (platform : Platform) (i j : Nat) (t : FieldType) :
    (t.freshAt platform i j).Ready := by
  match t with
  | ⟨kind, shortName, name, length, fraction, options, flags, charset, part, children, occurrence,
      superEntries⟩ =>
    cases kind with
    | group =>
      refine .group rfl ?_ (ready_freshMembers platform i 0 children)
      rw [freshMembers_eq_map, List.map_map]
      exact List.map_congr_left fun m _ => m.place_freshAt platform i 0
    | periodicGroup | multiple => exact .repeated rfl
    | binary | octets | float | packed | unpacked | text | superDescriptor | pseudo =>
      exact .leaf (Leaf.typed_fresh rfl)

theorem ready_freshMembers (platform : Platform) (i j : Nat) (types : List FieldType) :
    ∀ v ∈ freshMembers platform i j types, v.Ready := by
  match types with
  | [] =>
    intro v inside
    cases inside
  | t :: rest =>
    intro v inside
    rcases List.mem_cons.mp inside with rfl | later
    · exact ready_freshAt platform i j t
    · exact ready_freshMembers platform i j rest v later

end

end FieldType

namespace Definition

/-- A definition that can be read in place: each top-level field has its value. -/
structure Ready (d : Definition) : Prop where
  places : d.values.map Value.place = d.types.map fun t => .top t d.platform
  values : ∀ v ∈ d.values, v.Ready

theorem ready_ofTypes [Libraries] {platform : Platform} {types : List FieldType} {d : Definition}
    (h : ofTypes platform types = .ok d) : d.Ready := by
  obtain ⟨index, -, h⟩ := Outcome.bind_ok.mp h
  cases h
  refine ⟨(wellFormed_reset _).places, fun v inside => ?_⟩
  obtain ⟨t, -, rfl⟩ := List.mem_map.mp inside
  exact FieldType.ready_freshAt platform 0 0 t

/-- A read of a record that starts with `layout` takes that much and no less of it, whatever
follows; the values afterwards are those laid down, with the numbers of their occurrences. -/
structure TakesLayout (r : Request) (d : Definition) (laid : List Value) (layout : List UInt8)
    (values : List Value) : Prop where
  consumed : ∀ trailing, Value.parseMembers r (.ofList d.platform.byteOrder (layout ++ trailing))
    d.values = (values, .ok ⟨⟨d.platform.byteOrder, layout.reverse, trailing⟩, .none⟩)
  read : ∀ trailing, d.parse r (layout ++ trailing) = ({ d with values }, .ok .none)
  agrees : List.Forall₂ Value.Agrees laid values
  numbered : ∀ v ∈ values, v.Numbered
  short : ∀ front behind, layout = front ++ behind → behind ≠ [] →
    ∃ fault, (d.parse r front).2 = .error fault ∧ fault.code = 38

namespace Sample

def text : FieldType :=
  { FieldType.ofKind (.text .short false) "PA" with length := 0 }

def numbers : FieldType :=
  .multiple (.ofKind (.binary .two false) "PM")

def decimal : FieldType :=
  .ofKind (.packed .number) "GM"

/-- The third occurrence of a periodic group and those behind it, and in a group the seventh value
of a multiple-value field. -/
def types : List FieldType :=
  [(FieldType.periodic "PG" [text, numbers]).withOccurrence (.range 3 9),
    .group "GR" [(FieldType.multiple decimal).withOccurrence (.index 7)]]

def value (t : FieldType) (content : Content) : Value :=
  .leaf ⟨.top t .lowOrderFirst, content⟩

def structure_ (t : FieldType) (elements : List (List Value)) : Value :=
  .node (.top t .lowOrderFirst) elements

def number (n : Int) : Value :=
  value (((FieldType.ofKind (.binary .two false) "PM").withFlag .multipleElement).addFlagDeep
    .periodic) (.integer .two false n)

def occurrence (bytes : List UInt8) (ns : List Int) : List Value :=
  [value (text.addFlagDeep .periodic) (.text .short false (.whole bytes)),
    structure_ (numbers.addFlagDeep .periodic) (ns.map fun n => [number n])]

def laid : List Value :=
  [structure_ (types[0]) [occurrence [0x78, 0x79] [1, 258], occurrence [] []],
    structure_ (types[1]) [[structure_ ((FieldType.multiple decimal).withOccurrence (.index 7))
      [[value (decimal.withFlag .multipleElement) (.packed .number [0x7C])]]]]]

theorem carried_number {n : Int} (low : 0 ≤ n) (high : n ≤ 65535) :
    (number n).Carried .lowOrderFirst :=
  .leaf ⟨rfl, rfl, .integer rfl low high, rfl, rfl, trivial⟩

theorem carried_occurrence {bytes : List UInt8} {ns : List Int} (short : bytes.length < 255)
    (few : ns.length < Bytes.capacity 4) (within : ∀ n ∈ ns, 0 ≤ n ∧ n ≤ 65535) :
    ∀ v ∈ occurrence bytes ns, v.Carried .lowOrderFirst := by
  intro v inside
  simp only [occurrence, List.mem_cons, List.not_mem_nil, or_false] at inside
  rcases inside with rfl | rfl
  · exact .leaf ⟨rfl, rfl, .text rfl fun _ => occupies_variable.mpr (by
      show bytes.length + 1 < 256
      omega), rfl, rfl, trivial⟩
  · refine .node rfl ?_ ?_ ?_
    · rw [List.length_map]
      exact few
    · intro element inside
      obtain ⟨n, -, rfl⟩ := List.mem_map.mp inside
      rfl
    · intro element inside v member
      obtain ⟨n, listed, rfl⟩ := List.mem_map.mp inside
      rw [List.mem_singleton.mp member]
      exact carried_number (within n listed).1 (within n listed).2

theorem carried_laid : ∀ v ∈ laid, v.Carried .lowOrderFirst := by
  have decimals : (value (decimal.withFlag .multipleElement) (.packed .number [0x7C])).Carried
      .lowOrderFirst :=
    .leaf ⟨rfl, rfl, .packed rfl fun _ => rfl, rfl, rfl, (occupies_fixed (by decide)).mpr rfl⟩
  intro v inside
  simp only [laid, List.mem_cons, List.not_mem_nil, or_false] at inside
  rcases inside with rfl | rfl
  · refine .node rfl (show 2 < Bytes.capacity 4 by decide) ?_ ?_
    · intro element inside
      simp only [List.mem_cons, List.not_mem_nil, or_false] at inside
      rcases inside with rfl | rfl <;> rfl
    · intro element inside
      simp only [List.mem_cons, List.not_mem_nil, or_false] at inside
      rcases inside with rfl | rfl
      · exact carried_occurrence (by decide) (by decide) (by decide)
      · exact carried_occurrence (by decide) (by decide) (by decide)
  · refine .node rfl rfl (List.forall_mem_singleton.mpr rfl) (List.forall_mem_singleton.mpr ?_)
    refine List.forall_mem_singleton.mpr (.node rfl rfl (List.forall_mem_singleton.mpr rfl) ?_)
    exact List.forall_mem_singleton.mpr (List.forall_mem_singleton.mpr decimals)

end Sample

end Definition

end RecordCodec
