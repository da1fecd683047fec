import RecordCodec.Proofs.Definition.Reached
import RecordCodec.Proofs.Value.Parts

/-!
Records without the plain groups in them. A read of a record reads the fields and repeated fields of
a definition one after another, and its format tokens are theirs.
-/
namespace RecordCodec

theorem Value.WellFormed.tokens_pseudo {r : Request} {u : Value} (formed : u.WellFormed)
    (pseudo : u.type.kind.isPseudo = true) : u.tokens r = [] := by
  obtain ⟨source, kind⟩ : ∃ source, u.type.kind = .pseudo source := by
    unfold FieldKind.isPseudo at pseudo
    split at pseudo
    · rename_i source kind
      exact ⟨source, kind⟩
    · cases pseudo
  cases formed with
  | @leaf l typed =>
    have kind : l.place.type.kind = .pseudo source := kind
    rw [Leaf.Typed, kind] at typed
    have content : l.content = .pseudo := typed.of_kind
    rw [Value.tokens, Leaf.token?, content]
    rfl
  | @node p elements structure_ =>
    have kind : p.type.kind = .pseudo source := kind
    rw [kind] at structure_
    cases structure_

namespace Definition

open Value (partsOfMembers)

variable {r : Request} {d d' : Definition}

theorem WellFormed.of_mem_parts (formed : d.WellFormed) {u : Value}
    (inside : u ∈ partsOfMembers d.values) : ∃ t ∈ d.types, u.WellFormed ∧ u.type ∈ t.walk ∧
      u.type.kind ≠ .group ∧ u.place.periodicIndex = 0 ∧ u.place.multipleIndex = 0 := by
  obtain ⟨v, listed, inside⟩ := Value.mem_partsOfMembers.mp inside
  obtain ⟨t, field, place⟩ := formed.top listed
  obtain ⟨deep, plain⟩ := Value.of_mem_parts (formed.values v listed)
    (congrArg Place.periodicIndex place) (congrArg Place.multipleIndex place) u inside
  obtain ⟨kept, inner⟩ := (formed.values v listed).of_mem_walk u deep
  rw [show v.type = t from congrArg Place.type place] at inner
  exact ⟨t, field, kept, inner, plain⟩

theorem WellFormed.mem_walk_parts (formed : d.WellFormed) {l : Leaf}
    (inside : .leaf l ∈ Value.walkMembers d.values) :
    .leaf l ∈ Value.walkMembers (partsOfMembers d.values) := by
  obtain ⟨v, listed, deep⟩ := Value.mem_walkMembers.mp inside
  obtain ⟨u, part, deep⟩ := Value.exists_part (formed.values v listed) deep
  exact Value.mem_walkMembers.mpr ⟨u, Value.mem_partsOfMembers.mpr ⟨v, listed, part⟩, deep⟩

theorem tokens_read (formed : d.WellFormed) (reads : r.store = false) :
    d.tokens r = (partsOfMembers d.values).flatMap (Value.tokens r) := by
  have each := formed.values
  rw [tokens]
  generalize d.values = vs at each ⊢
  induction vs with
  | nil => rfl
  | cons v rest ih =>
    obtain ⟨here, others⟩ := List.forall_mem_cons.mp each
    rw [partsOfMembers, List.flatMap_append, ← ih others, ← Value.tokens_parts reads v,
      List.filter_cons]
    split
    · rw [List.flatMap_cons]
    · rename_i left
      have pseudo : v.type.kind.isPseudo = true := by simpa [takesPart, reads] using left
      rw [here.tokens_pseudo pseudo, List.nil_append]

theorem parse_of_parts {record : List UInt8} {us : List Value} {left : Remainder}
    (h : Value.parseMembers r (.ofList d.platform.byteOrder record) (partsOfMembers d.values) =
      (us, .ok left)) :
    ∃ values, d.parse r record = ({ d with values }, .ok left.followUp) ∧
      partsOfMembers values = us := by
  rw [Value.parseMembers_parts] at h
  obtain ⟨parts, outcome⟩ := Prod.mk.inj h
  refine ⟨(d.parse r record).1.values, Prod.ext rfl ?_, parts⟩
  exact congrArg (Except.map Remainder.followUp) outcome

theorem parse_error_of_parts {record : List UInt8} {fault : FieldFault}
    (h : (Value.parseMembers r (.ofList d.platform.byteOrder record)
      (partsOfMembers d.values)).2 = .error fault) : (d.parse r record).2 = .error fault := by
  rw [Value.parseMembers_parts] at h
  exact congrArg (Except.map Remainder.followUp) h

theorem values_of_parse {record : List UInt8} {followUp : FollowUp}
    (h : d.parse r record = (d', .ok followUp)) :
    ∃ left, Value.parseMembers r (.ofList d.platform.byteOrder record) d.values =
      (d'.values, .ok left) ∧ left.followUp = followUp := by
  obtain ⟨same, outcome⟩ := Prod.mk.inj h
  obtain ⟨left, parsed, need⟩ := Outcome.map_ok.mp outcome
  subst same
  exact ⟨left, Prod.ext rfl parsed, need⟩

theorem parseMembers_of_parse {record : List UInt8} {followUp : FollowUp}
    (h : d.parse r record = (d', .ok followUp)) :
    ∃ left, Value.parseMembers r (.ofList d.platform.byteOrder record) (partsOfMembers d.values) =
      (partsOfMembers d'.values, .ok left) ∧ left.followUp = followUp := by
  obtain ⟨left, parsed, need⟩ := values_of_parse h
  exact ⟨left, by rw [Value.parseMembers_parts, parsed], need⟩

end Definition

end RecordCodec
