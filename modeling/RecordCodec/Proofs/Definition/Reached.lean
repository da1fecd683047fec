import RecordCodec.Definition.Derive
import RecordCodec.Definition.Record
import RecordCodec.Definition.Restrict
import RecordCodec.Proofs.Value.Changes
import RecordCodec.Proofs.Value.Everywhere

/-!
The states that a definition can be in: those that its operations, in any order and whether they
succeed or fail, lead to from fields without values. In all of them the values obey the laws that
operations keep: they are in the places of the fields and of their shape, and what every field has
from the start and keeps, all fields have.
-/
namespace RecordCodec

namespace Definition

inductive Reached [Libraries] : Definition → Prop where
  | new {platform : Platform} {types : List FieldType} {d : Definition}
      (defined : ofTypes platform types = .ok d) : Reached d
  | assigned {d d' : Definition} (reached : Reached d) (name : String) (s : Scalar)
      (accepted : d.assign name s = .ok d') : Reached d'
  | changed {d d' : Definition} (reached : Reached d) (name : String) (path : List Value.PathStep)
      (change : Value.Change) {a : Option Unit}
      (found : d.modifyValue? name (Value.modifyAt (fun v => ((), change.apply v)) path) =
        some (a, d')) : Reached d'
  | parsed {d : Definition} (reached : Reached d) (r : Request) (record : List UInt8) :
      Reached (d.parse r record).1
  | derived {d : Definition} (reached : Reached d) : Reached d.derive.1
  | reset {d : Definition} (reached : Reached d) : Reached d.reset
  | restricted {d d' : Definition} (reached : Reached d) (names : List String)
      (kept : d.restrict names = .ok d') : Reached d'

theorem Reached.of_parse [Libraries] {d d' : Definition} (reached : d.Reached) {r : Request}
    {record : List UInt8} {outcome : Except FieldFault FollowUp}
    (h : d.parse r record = (d', outcome)) : d'.Reached := by
  have kept := reached.parsed r record
  rw [h] at kept
  exact kept

/-- Each top-level field has a value in its place and of its shape. -/
structure WellFormed (d : Definition) : Prop where
  places : d.values.map Value.place = d.types.map fun t => .top t d.platform
  values : ∀ v ∈ d.values, v.WellFormed

theorem WellFormed.top {d : Definition} (formed : d.WellFormed) {v : Value}
    (listed : v ∈ d.values) : ∃ t ∈ d.types, v.place = .top t d.platform := by
  have place : v.place ∈ d.values.map Value.place := List.mem_map_of_mem listed
  rw [formed.places] at place
  obtain ⟨t, field, same⟩ := List.mem_map.mp place
  exact ⟨t, field, same.symm⟩

/-- Each top-level field has a value in its place, and all values obey a law. -/
structure Obeys (law : Value.Law) (d : Definition) : Prop where
  places : d.values.map Value.place = d.types.map fun t => .top t d.platform
  values : ∀ v ∈ d.values, v.Obeys law

section Law

variable [Libraries] {law : Value.Law} (lasting : law.Lasting)
include lasting

theorem obeys_reset (d : Definition) : d.reset.Obeys law := by
  constructor
  · show (d.types.map (FieldType.fresh d.platform)).map Value.place = _
    rw [List.map_map]
    exact List.map_congr_left fun t _ => t.place_fresh d.platform
  · exact List.forall_mem_map.mpr fun t _ => t.obeys_freshAt lasting d.platform 0 0

omit [Libraries] lasting in
theorem obeys_modifyValue? {α : Type} {change : Value → α × Value}
    (kept : law.KeptBy (fun _ => True) change) {d d' : Definition} (obeys : d.Obeys law)
    {name : String} {a : α} (h : d.modifyValue? name change = some (a, d')) : d'.Obeys law := by
  obtain ⟨⟨b, values⟩, changed, same⟩ := Option.map_eq_some_iff.mp h
  cases same
  obtain ⟨all, places⟩ := Value.modifyInMembers?_keeps
    (fun v listed v' found => Value.obeys_modifyNamed? kept (obeys.values v listed) found trivial)
    obeys.values changed
  exact ⟨places.trans obeys.places, all⟩

theorem obeys_assign {d d' : Definition} (obeys : d.Obeys law) {name : String} {s : Scalar}
    (h : d.assign name s = .ok d') : d'.Obeys law := by
  unfold assign at h
  dsimp only at h
  split at h
  · cases h
  · rename_i changed
    cases h
    refine obeys_modifyValue? ?_ obeys changed
    intro v obeys _
    dsimp only
    cases assigned : v.assign s with
    | error fault => exact ⟨obeys, rfl⟩
    | ok v' => exact Value.obeys_assign lasting obeys assigned
  · cases h

theorem obeys_parse {d : Definition} (obeys : d.Obeys law) (r : Request) (record : List UInt8) :
    (d.parse r record).1.Obeys law := by
  obtain ⟨kept, places⟩ := Value.obeys_parseMembers lasting (r := r)
    (.ofList d.platform.byteOrder record) d.values obeys.values
  exact ⟨places.trans obeys.places, kept⟩

omit [Libraries] lasting in
theorem superDescriptor?_eq_some {v : Value} {l : Leaf} (h : v.superDescriptor? = some l) :
    v = .leaf l ∧ ∃ bytes, l.content = .superDescriptor bytes := by
  cases v with
  | node => cases h
  | leaf l' =>
    unfold Value.superDescriptor? at h
    dsimp only at h
    split at h
    · rename_i bytes content
      cases h
      exact ⟨rfl, bytes, content⟩
    · cases h

theorem obeys_deriveFrom {before rest : List Value} (all : ∀ v ∈ before ++ rest, v.Obeys law) :
    (∀ v ∈ (deriveFrom before rest).1, v.Obeys law) ∧
      (deriveFrom before rest).1.map Value.place = (before ++ rest).map Value.place := by
  induction rest generalizing before with
  | nil => simpa [deriveFrom] using all
  | cons v rest ih =>
    obtain ⟨earlier, here⟩ := List.forall_mem_append.mp all
    obtain ⟨here, later⟩ := List.forall_mem_cons.mp here
    unfold deriveFrom
    split
    · have kept := @ih (before ++ [v]) (by simpa using all)
      simpa using kept
    · rename_i l found
      obtain ⟨rfl, bytes0, content⟩ := superDescriptor?_eq_some found
      split
      · exact ⟨all, rfl⟩
      · rename_i bytes composed
        cases here with
        | leaf here =>
        have composed := lasting.compose bytes here content
        have kept := @ih (before ++ [.leaf { l with content := .superDescriptor bytes }]) <| by
          simp only [List.forall_mem_append, List.forall_mem_singleton]
          exact ⟨⟨earlier, .leaf composed⟩, later⟩
        simpa [Value.place] using kept

theorem obeys_restrict {d d' : Definition} {names : List String}
    (h : d.restrict names = .ok d') : d'.Obeys law := by
  unfold restrict at h
  split at h
  · cases h
    exact obeys_reset lasting d
  · obtain ⟨wanted, -, h⟩ := Outcome.bind_ok.mp h
    obtain ⟨index, -, h⟩ := Outcome.bind_ok.mp h
    cases h
    exact obeys_reset lasting _

theorem Reached.obeys (grows : ∀ t, law.Grows t) {d : Definition} (reached : d.Reached) :
    d.Obeys law := by
  induction reached with
  | new defined =>
    obtain ⟨index, -, defined⟩ := Outcome.bind_ok.mp defined
    cases defined
    exact obeys_reset lasting _
  | assigned _ name s accepted ih => exact obeys_assign lasting ih accepted
  | changed _ name path change found ih =>
    have kept : law.KeptBy (fun _ => True) fun v => ((), change.apply v) :=
      fun v obeys _ => Value.obeys_apply lasting change obeys fun _ _ _ => grows _
    refine obeys_modifyValue? ?_ ih found
    exact fun v obeys _ => Value.keptBy_modifyAt lasting kept path v obeys fun _ _ => trivial
  | parsed _ r record ih => exact obeys_parse lasting ih r record
  | derived _ ih =>
    obtain ⟨all, places⟩ := obeys_deriveFrom lasting (show ∀ v ∈ [] ++ _, _ from ih.values)
    exact ⟨places.trans ih.places, all⟩
  | reset => exact obeys_reset lasting _
  | restricted _ names kept => exact obeys_restrict lasting kept

end Law

theorem wellFormed_iff_obeys {d : Definition} : d.WellFormed ↔ d.Obeys Value.declared :=
  ⟨fun formed => ⟨formed.places, fun v listed =>
      Value.wellFormed_iff_obeys.mp (formed.values v listed)⟩,
    fun obeys => ⟨obeys.places, fun v listed =>
      Value.wellFormed_iff_obeys.mpr (obeys.values v listed)⟩⟩

variable [Libraries]

theorem wellFormed_reset (d : Definition) : d.reset.WellFormed :=
  wellFormed_iff_obeys.mpr (obeys_reset Value.lasting_declared d)

theorem Reached.wellFormed {d : Definition} (reached : d.Reached) : d.WellFormed :=
  wellFormed_iff_obeys.mpr (reached.obeys Value.lasting_declared Value.grows_declared)

theorem Reached.everywhere {P : Leaf → Prop} (lasting : Leaf.Lasting P) {d : Definition}
    (reached : d.Reached) : ∀ v ∈ d.values, v.Everywhere P :=
  fun v listed => Value.everywhere_iff_obeys.mpr
    ((reached.obeys lasting.fieldLaw Value.grows_fieldLaw).values v listed)

end Definition

end RecordCodec
