import Mathlib.Data.List.Basic
import RecordCodec.Proofs.Value.WellFormed
import RecordCodec.Proofs.Value.Written

/-!
The fields inside of a field and the values inside of a value, at any depth. In a value of the shape
of its field every value inside is of the shape of a field inside.
-/
namespace RecordCodec

namespace FieldType

theorem mem_walk_self (t : FieldType) : t ∈ t.walk := by
  cases t
  exact List.mem_cons_self ..

theorem mem_walkAll {types : List FieldType} {u : FieldType} :
    u ∈ walkAll types ↔ ∃ t ∈ types, u ∈ t.walk := by
  induction types with
  | nil => simp [walkAll]
  | cons t rest ih => rw [walkAll, List.mem_append, ih, List.exists_mem_cons_iff]

theorem mem_walk_of_children {t u : FieldType} (inside : u ∈ walkAll t.children) : u ∈ t.walk := by
  cases t
  exact List.mem_cons_of_mem _ inside

end FieldType

namespace Value

theorem mem_walk_self (v : Value) : v ∈ v.walk := by
  cases v with
  | leaf l => exact List.mem_singleton.mpr rfl
  | node p elements => exact List.mem_cons_self ..

theorem mem_walkMembers {vs : List Value} {w : Value} :
    w ∈ walkMembers vs ↔ ∃ v ∈ vs, w ∈ v.walk := by
  induction vs with
  | nil => simp [walkMembers]
  | cons v rest ih => rw [walkMembers, List.mem_append, ih, List.exists_mem_cons_iff]

theorem mem_walkElements {elements : List (List Value)} {w : Value} :
    w ∈ walkElements elements ↔ ∃ element ∈ elements, w ∈ walkMembers element := by
  induction elements with
  | nil => simp [walkElements]
  | cons element rest ih => rw [walkElements, List.mem_append, ih, List.exists_mem_cons_iff]

theorem mem_walk_node {p : Place} {elements : List (List Value)} {w : Value} :
    w ∈ (node p elements).walk ↔
      w = node p elements ∨ ∃ element ∈ elements, ∃ v ∈ element, w ∈ v.walk := by
  rw [walk, List.mem_cons, mem_walkElements]
  simp only [mem_walkMembers]

theorem Obeys.of_mem_walk {law : Law} {v : Value} (obeys : v.Obeys law) :
    ∀ w ∈ v.walk, w.Obeys law := by
  induction obeys with
  | leaf here =>
    rw [walk, List.forall_mem_singleton]
    exact .leaf here
  | node here inside ih =>
    intro w deep
    obtain rfl | ⟨element, listed, v, member, deep⟩ := mem_walk_node.mp deep
    · exact .node here inside
    · exact ih element listed v member w deep

theorem WellFormed.typed {l : Leaf} (formed : (Value.leaf l).WellFormed) : l.Typed := by
  cases formed with
  | leaf typed => exact typed

theorem WellFormed.member {p : Place} {elements : List (List Value)}
    (formed : (Value.node p elements).WellFormed) {element : List Value}
    (listed : element ∈ elements) {v : Value} (inside : v ∈ element) :
    v.WellFormed ∧ v.type ∈ p.type.children := by
  cases formed with
  | node kind places all =>
    obtain ⟨index, same⟩ := places element listed
    have place : v.place ∈ element.map place := List.mem_map_of_mem inside
    rw [same] at place
    obtain ⟨t, child, same⟩ := List.mem_map.mp place
    refine ⟨all element listed v inside, ?_⟩
    rw [type, ← same]
    exact child

theorem WellFormed.member_indexes {p : Place} {elements : List (List Value)}
    (formed : (Value.node p elements).WellFormed) (single : p.type.kind.isRepeated = false)
    {element : List Value} (listed : element ∈ elements) {v : Value} (inside : v ∈ element) :
    v.place.periodicIndex = p.periodicIndex ∧ v.place.multipleIndex = 0 := by
  cases formed with
  | node kind places all =>
    obtain ⟨index, same⟩ := places element listed
    have place : v.place ∈ element.map place := List.mem_map_of_mem inside
    rw [same] at place
    obtain ⟨t, -, same⟩ := List.mem_map.mp place
    rw [← same]
    cases group : p.type.kind <;>
      simp_all [Place.elementIndexes, FieldKind.isRepeated]

theorem WellFormed.of_mem_walk {v : Value} (formed : v.WellFormed) :
    ∀ w ∈ v.walk, w.WellFormed ∧ w.type ∈ v.type.walk := by
  induction formed with
  | @leaf l typed =>
    intro w inside
    rw [walk, List.mem_singleton] at inside
    subst inside
    exact ⟨.leaf typed, FieldType.mem_walk_self _⟩
  | @node p elements kind places all ih =>
    have formed : (Value.node p elements).WellFormed := .node kind places all
    intro w inside
    rcases mem_walk_node.mp inside with rfl | ⟨element, listed, v, member, inside⟩
    · exact ⟨formed, FieldType.mem_walk_self _⟩
    · obtain ⟨kept, deep⟩ := ih element listed v member w inside
      exact ⟨kept, FieldType.mem_walk_of_children
        (FieldType.mem_walkAll.mpr ⟨_, (formed.member listed member).2, deep⟩)⟩

end Value

end RecordCodec
