import RecordCodec.Proofs.Value.Unrepeated

/-!
The shape of a value. What a field holds is of its kind, and every element of a structure has one
value for each field of it, in its place. This is a law that every operation keeps.
-/
namespace RecordCodec

def Content.IsOf (kind : FieldKind) : Content → Prop
  | .integer width signed _ => kind = .binary width signed
  | .octets _ => kind = .octets
  | .float wide _ => kind = .float wide
  | .packed content _ => kind = .packed content
  | .unpacked _ => kind = .unpacked
  | .text size unicode _ => kind = .text size unicode
  | .superDescriptor _ => kind = .superDescriptor
  | .pseudo => kind.isPseudo = true

theorem Content.IsOf.flat {kind : FieldKind} {content : Content} (typed : content.IsOf kind) :
    kind.isStructure = false := by
  cases content with
  | pseudo => cases kind <;> first | rfl | cases typed
  | integer | octets | float | packed | unpacked | text | superDescriptor => cases typed; rfl

theorem Content.IsOf.of_kind {kind : FieldKind} {content : Content} : content.IsOf kind →
    match kind with
    | .binary width signed => ∃ v, content = .integer width signed v
    | .octets => ∃ bytes, content = .octets bytes
    | .float wide => ∃ bits, content = .float wide bits
    | .packed meaning => ∃ bytes, content = .packed meaning bytes
    | .unpacked => ∃ bytes, content = .unpacked bytes
    | .text size unicode => ∃ c, content = .text size unicode c
    | .superDescriptor => ∃ bytes, content = .superDescriptor bytes
    | .pseudo _ | .group | .periodicGroup | .multiple => content = .pseudo := by
  intro typed
  cases content with
  | pseudo => cases kind <;> first | rfl | cases typed
  | integer | octets | float | packed | unpacked | text | superDescriptor =>
    cases typed
    exact ⟨_, rfl⟩

theorem Content.isOf_initial {p : Place} (flat : p.type.kind.isStructure = false) :
    (Content.initial p).IsOf p.type.kind := by
  unfold initial
  cases same : p.type.kind <;> first | rfl | (rw [same] at flat; cases flat)

theorem Content.Suits.isOf {p : Place} {content : Content} (suits : content.Suits p)
    (flat : p.type.kind.isStructure = false) : content.IsOf p.type.kind := by
  cases suits with
  | pseudo kind => exact kind.resolve_right (by simp [flat])
  | integer kind | octets kind | float kind | packed kind | unpacked kind | text kind
  | superDescriptor kind => exact kind

namespace Leaf

def Typed (l : Leaf) : Prop :=
  l.content.IsOf l.place.type.kind

theorem typed_fresh {p : Place} (flat : p.type.kind.isStructure = false) : (fresh p).Typed :=
  Content.isOf_initial flat

theorem typed_assign [Libraries] {l l' : Leaf} {s : Scalar} (typed : l.Typed)
    (h : l.assign s = .ok l') :
    l'.Typed := by
  obtain ⟨content, assigned, rfl⟩ := Outcome.map_ok.mp h
  obtain ⟨p, before⟩ := l
  unfold assignContent at assigned
  cases before with
  | superDescriptor | pseudo => cases assigned
  | integer | octets | float | packed | unpacked | text =>
    obtain ⟨x, -, rfl⟩ := Outcome.map_ok.mp assigned
    exact typed

theorem readContent_isOf {l : Leaf} (typed : l.Typed) {q q' : ByteQueue} {content : Content}
    (h : l.readContent q = .ok (content, q')) : content.IsOf l.place.type.kind := by
  obtain ⟨p, before⟩ := l
  unfold readContent at h
  cases before with
  | text | pseudo =>
    cases h
    exact typed
  | integer | octets | float | packed | unpacked | superDescriptor =>
    obtain ⟨x, -, same⟩ := Outcome.map_ok.mp h
    cases same
    exact typed

theorem typed_parse {l : Leaf} (typed : l.Typed) (r : Request) (q : ByteQueue) :
    (l.parse r q).1.Typed := by
  obtain ⟨p, before⟩ := l
  unfold parse
  split
  · rename_i same
    cases same
    exact typed
  · exact typed
  · split
    · exact typed
    · split
      · exact typed
      · rename_i read
        exact readContent_isOf typed read

theorem typed_compose {l : Leaf} {before : List UInt8} (bytes : List UInt8) (typed : l.Typed)
    (content : l.content = .superDescriptor before) :
    Typed { l with content := .superDescriptor bytes } := by
  unfold Typed at typed
  rw [content] at typed
  exact typed

end Leaf

namespace Value

inductive WellFormed : Value → Prop where
  | leaf {l : Leaf} (typed : l.Typed) : WellFormed (.leaf l)
  | node {p : Place} {elements : List (List Value)} (kind : p.type.kind.isStructure = true)
      (places : ∀ element ∈ elements, ∃ index, element.map place = p.memberPlaces index)
      (all : ∀ element ∈ elements, ∀ v ∈ element, WellFormed v) : WellFormed (.node p elements)

def declared : Law where
  leaf := Leaf.Typed
  node p shape :=
    p.type.kind.isStructure = true ∧ ∀ places ∈ shape, ∃ index, places = p.memberPlaces index

theorem wellFormed_iff_obeys {v : Value} : v.WellFormed ↔ v.Obeys declared := by
  constructor
  · intro formed
    induction formed with
    | leaf typed => exact .leaf typed
    | node kind places _ ih => exact .node ⟨kind, List.forall_mem_map.mpr places⟩ ih
  · intro obeys
    induction obeys with
    | leaf typed => exact .leaf typed
    | node here _ ih =>
      exact .node here.1 (fun element listed => here.2 _ (List.mem_map_of_mem listed)) ih

theorem grows_declared (t : FieldType) : declared.Grows t := by
  intro p shape _ here
  refine ⟨here.1, List.forall_mem_append.mpr ⟨here.2, ?_⟩⟩
  exact List.forall_mem_singleton.mpr ⟨_, rfl⟩

theorem lasting_declared [Libraries] : declared.Lasting where
  fresh _ flat := Leaf.typed_fresh flat
  assign typed assigned := Leaf.typed_assign typed assigned
  parse r q typed := Leaf.typed_parse typed r q
  compose bytes typed content := Leaf.typed_compose bytes typed content
  group p kind := ⟨by rw [kind]; rfl, List.forall_mem_singleton.mpr ⟨0, rfl⟩⟩
  read p count repeated := ⟨FieldKind.isStructure_of_isRepeated repeated,
    List.forall_mem_map.mpr fun _ _ => ⟨_, rfl⟩⟩
  grow _ := grows_declared _

theorem wellFormed_parse [Libraries] (r : Request) (q : ByteQueue) {v : Value}
    (formed : v.WellFormed) :
    (v.parse r q).1.WellFormed ∧ (v.parse r q).1.place = v.place := by
  obtain ⟨obeys, same⟩ := obeys_parse lasting_declared (r := r) q (wellFormed_iff_obeys.mp formed)
  exact ⟨wellFormed_iff_obeys.mpr obeys, same⟩

end Value

end RecordCodec
