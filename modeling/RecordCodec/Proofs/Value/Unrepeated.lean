import RecordCodec.Proofs.Value.Extent
import RecordCodec.Proofs.Value.Shape

/-!
Fields without repeats, which a record carries whole, and their values. Assignments keep the shape
of a value: every field keeps its place and a content that it can have.
-/
namespace RecordCodec

/-- Kinds and lengths of the fields that a store and a read exchange: numbers of a binary width, raw
bytes and texts of one or two header bytes of any length, decimals and large texts of a fixed
one. -/
def FieldKind.Exchanged (length : Nat) : FieldKind → Prop
  | .binary _ _ | .octets | .text .short _ | .text .long _ => True
  | .packed _ | .unpacked | .text .large _ => length ≠ 0
  | _ => False

/-- A field that takes part in every request with all of its bytes. -/
structure FieldType.Whole (t : FieldType) : Prop where
  unrestricted : t.partialRange = none
  written : t.isReadOnly = false
  kept : t.hasFlag .toBeRemoved = false

/-- Fields that a store and a read exchange, and plain groups of them. -/
inductive FieldType.Exchanged : FieldType → Prop where
  | field {t : FieldType} (whole : t.Whole) (kind : t.kind.Exchanged t.length) : Exchanged t
  | group {t : FieldType} (whole : t.Whole) (kind : t.kind = .group)
      (members : ∀ m ∈ t.children, Exchanged m) : Exchanged t

theorem FieldType.Exchanged.whole {t : FieldType} (exchanged : t.Exchanged) : t.Whole := by
  cases exchanged with
  | field whole kind => exact whole
  | group whole kind members => exact whole

namespace Value

/-- A value without repeated fields: a field with a content that it can have, or a group with one
value for each field in it. -/
inductive Unrepeated : Value → Prop where
  | leaf {l : Leaf} (flat : l.place.type.kind.isStructure = false) (suited : l.Suited) :
      Unrepeated (.leaf l)
  | group {p : Place} {members : List Value} (kind : p.type.kind = .group)
      (places : members.map place =
        p.type.children.map fun t => ⟨t, p.platform, p.periodicIndex, 0⟩)
      (all : ∀ v ∈ members, Unrepeated v) : Unrepeated (.node p [members])

theorem unrepeated_freshAt {t : FieldType} (exchanged : t.Exchanged) (platform : Platform)
    (i j : Nat) : (t.freshAt platform i j).Unrepeated := by
  induction exchanged generalizing i j with
  | @field t whole kind =>
    have flat : t.kind.isStructure = false := by
      cases same : t.kind <;> first | rfl | (rw [same] at kind; cases kind)
    rw [FieldType.freshAt_leaf flat]
    exact .leaf flat (Leaf.suited_fresh _)
  | @group t whole kind members ih =>
    rw [FieldType.freshAt_group kind, FieldType.freshMembers_eq_map]
    refine .group kind ?_ ?_
    · rw [List.map_map]
      exact List.map_congr_left fun m _ => m.place_freshAt platform i 0
    · intro v hv
      obtain ⟨m, hm, rfl⟩ := List.mem_map.mp hv
      exact ih m hm i 0

def Keeps {α : Type} (change : Value → α × Value) : Prop :=
  ∀ v, v.Unrepeated → (change v).2.Unrepeated ∧ (change v).2.place = v.place

theorem modifyNamed?_keeps {α : Type} {name : String} {change : Value → α × Value}
    (keeps : Keeps change) {v v' : Value} (unrepeated : v.Unrepeated) {a : α}
    (h : v.modifyNamed? name change = some (a, v')) : v'.Unrepeated ∧ v'.place = v.place := by
  induction unrepeated generalizing a v' with
  | @leaf l flat suited =>
    unfold modifyNamed? at h
    split at h
    · have kept := keeps (.leaf l) (.leaf flat suited)
      rw [Option.some.inj h] at kept
      exact kept
    · cases h
  | @group p members kind places all ih =>
    unfold modifyNamed? at h
    split at h
    · have kept := keeps (.node p [members]) (.group kind places all)
      rw [Option.some.inj h] at kept
      exact kept
    · obtain ⟨⟨b, elements⟩, inside, same⟩ := Option.map_eq_some_iff.mp h
      cases same
      rw [modifyInElements?] at inside
      split at inside
      · rename_i c members' changed
        cases inside
        obtain ⟨kept, same⟩ := modifyInMembers?_keeps (fun v hv _ => ih v hv) all changed
        exact ⟨.group kind (same.trans places) kept, rfl⟩
      · cases inside

theorem unrepeated_assign [Libraries] {v v' : Value} {s : Scalar} (unrepeated : v.Unrepeated)
    (h : v.assign s = .ok v') : v'.Unrepeated ∧ v'.place = v.place := by
  cases unrepeated with
  | group => cases h
  | @leaf l flat suited =>
    obtain ⟨l', assigned, rfl⟩ := Outcome.map_ok.mp h
    have same := Leaf.place_assign assigned
    exact ⟨.leaf (same ▸ flat) (Leaf.suited_assign suited assigned), same⟩

end Value

end RecordCodec
