import Mathlib.Data.List.Forall2
import RecordCodec.Proofs.Value.Layout
import RecordCodec.Proofs.Value.Walk

/-!
The occurrence numbers of values that were read. Everything in an occurrence of a periodic group has
its number, and so has each value of a multiple-value field.
-/
namespace RecordCodec

namespace FieldType

def Unnested (t : FieldType) : Prop :=
  ∀ u ∈ t.walk, u.kind = .periodicGroup → ∀ m ∈ walkAll u.children, m.kind ≠ .periodicGroup

end FieldType

namespace Value

theorem type_mem_walk {platform : Platform} {v : Value} (carried : v.Carried platform) :
    ∀ w ∈ v.walk, w.type ∈ v.type.walk := by
  induction carried with
  | @leaf l carried =>
    intro w inside
    rw [walk, List.mem_singleton] at inside
    exact inside ▸ FieldType.mem_walk_self _
  | @node p elements kind counts types all ih =>
    intro w inside
    rcases mem_walk_node.mp inside with rfl | ⟨element, listed, v, member, inside⟩
    · exact FieldType.mem_walk_self _
    · apply FieldType.mem_walk_of_children
      apply FieldType.mem_walkAll.mpr
      refine ⟨v.type, ?_, ih element listed v member w inside⟩
      have field : v.type ∈ element.map type := List.mem_map_of_mem member
      rwa [types element listed] at field

theorem Carried.of_mem_walk {platform : Platform} {v : Value} (carried : v.Carried platform) :
    ∀ w ∈ v.walk, w.Carried platform := by
  induction carried with
  | @leaf l carried =>
    intro w inside
    rw [walk, List.mem_singleton] at inside
    exact inside ▸ .leaf carried
  | @node p elements kind counts types all ih =>
    intro w inside
    rcases mem_walk_node.mp inside with rfl | ⟨element, listed, v, member, inside⟩
    · exact .node kind counts types all
    · exact ih element listed v member w inside

/-- Two values of the same fields with the same occurrences and bytes. -/
inductive Agrees : Value → Value → Prop where
  | leaf {l l' : Leaf} (type : l'.place.type = l.place.type) (bytes : l'.bytes = l.bytes) :
      Agrees (.leaf l) (.leaf l')
  | node {p p' : Place} {elements elements' : List (List Value)} (type : p'.type = p.type)
      (same : List.Forall₂ (List.Forall₂ Agrees) elements elements') :
      Agrees (.node p elements) (.node p' elements')

/-- Everything in an occurrence of a periodic group, and each value of a multiple-value field, has
the number of the occurrence. -/
def Numbered (v : Value) : Prop :=
  ∀ p elements, node p elements ∈ v.walk → ∀ k element, elements[k]? = some element →
    (p.type.kind = .periodicGroup →
      ∀ w ∈ walkMembers element, w.place.periodicIndex = p.type.occurrence.number k) ∧
    (p.type.kind = .multiple →
      ∀ w ∈ element, w.place.multipleIndex = p.type.occurrence.number k)

theorem rereadMembers_eq_map (platform : Platform) (i j : Nat) (vs : List Value) :
    rereadMembers platform i j vs = vs.map (reread platform i j) := by
  induction vs with
  | nil => rfl
  | cons v rest ih => rw [rereadMembers, ih, List.map_cons]

@[simp] theorem place_reread (platform : Platform) (i j : Nat) (v : Value) :
    (v.reread platform i j).place = ⟨v.type, platform, i, j⟩ := by
  cases v <;> rfl

theorem getElem?_rereadElements (p : Place) (behind : Nat) (elements : List (List Value))
    (k : Nat) :
    (rereadElements p behind elements)[k]? = elements[k]?.map (rereadMembers p.platform
      (p.elementIndexes (p.type.occurrence.number (behind + k))).1
      (p.elementIndexes (p.type.occurrence.number (behind + k))).2) := by
  induction elements generalizing behind k with
  | nil => rfl
  | cons element rest ih =>
    cases k with
    | zero => rfl
    | succ k =>
      rw [rereadElements, List.getElem?_cons_succ, List.getElem?_cons_succ, ih,
        Nat.add_right_comm, Nat.add_assoc]

theorem mem_rereadElements {p : Place} {behind : Nat} {elements : List (List Value)}
    {element' : List Value} (inside : element' ∈ rereadElements p behind elements) :
    ∃ element ∈ elements, ∃ k, element' =
      element.map (reread p.platform (p.elementIndexes k).1 (p.elementIndexes k).2) := by
  obtain ⟨k, found⟩ := List.mem_iff_getElem?.mp inside
  rw [getElem?_rereadElements] at found
  obtain ⟨element, here, rfl⟩ := Option.map_eq_some_iff.mp found
  exact ⟨element, List.mem_of_getElem? here, _, rereadMembers_eq_map ..⟩

theorem mem_walk_reread {platform : Platform} {v : Value} (carried : v.Carried platform)
    (i j : Nat) : ∀ w' ∈ (v.reread platform i j).walk,
      ∃ w ∈ v.walk, ∃ i' j', w' = w.reread platform i' j' := by
  induction carried generalizing i j with
  | @leaf l carried =>
    intro w' inside
    rw [reread, walk, List.mem_singleton] at inside
    exact ⟨leaf l, by simp [walk], i, j, inside⟩
  | @node p elements kind counts types all ih =>
    intro w' inside
    rcases mem_walk_node.mp inside with rfl | ⟨element', listed, v', member, inside⟩
    · exact ⟨node p elements, mem_walk_node.mpr (.inl rfl), i, j, rfl⟩
    · obtain ⟨element, before, k, rfl⟩ := mem_rereadElements listed
      obtain ⟨v, source, rfl⟩ := List.mem_map.mp member
      obtain ⟨w, within, numbers⟩ := ih element before v source _ _ w' inside
      exact ⟨w, mem_walk_node.mpr (.inr ⟨element, before, v, source, within⟩), numbers⟩

theorem periodicIndex_reread {platform : Platform} {v : Value} (carried : v.Carried platform)
    (i j : Nat) (unrepeated : ∀ u ∈ v.walk, u.type.kind ≠ .periodicGroup) :
    ∀ w ∈ (v.reread platform i j).walk, w.place.periodicIndex = i := by
  induction carried generalizing i j with
  | @leaf l carried =>
    intro w inside
    rw [reread, walk, List.mem_singleton] at inside
    rw [inside]
    rfl
  | @node p elements kind counts types all ih =>
    intro w inside
    rcases mem_walk_node.mp inside with rfl | ⟨element', listed, v', member, inside⟩
    · rfl
    · obtain ⟨element, before, k, rfl⟩ := mem_rereadElements listed
      obtain ⟨v, source, rfl⟩ := List.mem_map.mp member
      have same : (Place.elementIndexes ⟨p.type, platform, i, j⟩ k).1 = i := by
        have other := unrepeated (node p elements) (mem_walk_node.mpr (.inl rfl))
        unfold Place.elementIndexes
        split
        · rename_i kind
          exact absurd kind other
        · rfl
        · rfl
      rw [same] at inside
      exact ih element before v source i _ (fun u within => unrepeated u
        (mem_walk_node.mpr (.inr ⟨element, before, v, source, within⟩))) w inside

theorem numbered_reread {platform : Platform} {v : Value} (carried : v.Carried platform)
    (unnested : v.type.Unnested) (i j : Nat) : (v.reread platform i j).Numbered := by
  intro p' elements' inside k element' found
  obtain ⟨w, within, i', j', same⟩ := mem_walk_reread carried i j _ inside
  have fields := unnested w.type (type_mem_walk carried w within)
  cases carried.of_mem_walk w within with
  | leaf => cases same
  | @node p elements kind counts types all =>
    cases same
    rw [getElem?_rereadElements, Nat.zero_add] at found
    obtain ⟨element, here, rfl⟩ := Option.map_eq_some_iff.mp found
    have listed : element ∈ elements := List.mem_of_getElem? here
    rw [rereadMembers_eq_map]
    constructor
    · intro periodic u inside
      obtain ⟨m', member, inside⟩ := mem_walkMembers.mp inside
      obtain ⟨m, source, rfl⟩ := List.mem_map.mp member
      have number : Place.elementIndexes ⟨p.type, platform, i', j'⟩
          (p.type.occurrence.number k) = (p.type.occurrence.number k, 0) := by
        rw [Place.elementIndexes, periodic]
      rw [number] at inside
      refine periodicIndex_reread (all element listed m source) _ _ ?_ u inside
      intro x deep
      have field : m.type ∈ element.map type := List.mem_map_of_mem source
      rw [types element listed] at field
      exact fields periodic x.type (FieldType.mem_walkAll.mpr
        ⟨m.type, field, type_mem_walk (all element listed m source) x deep⟩)
    · intro multiple u member
      obtain ⟨m, source, rfl⟩ := List.mem_map.mp member
      rw [place_reread, Place.elementIndexes, multiple]

theorem agrees_rereadMembers {platform : Platform} {vs : List Value}
    (each : ∀ v ∈ vs, ∀ i j, v.Agrees (v.reread platform i j)) (i j : Nat) :
    List.Forall₂ Agrees vs (rereadMembers platform i j vs) := by
  rw [rereadMembers_eq_map, List.forall₂_map_right_iff, List.forall₂_same]
  exact fun v inside => each v inside i j

theorem agrees_rereadElements {p : Place} {elements : List (List Value)}
    (each : ∀ element ∈ elements, ∀ v ∈ element, ∀ i j, v.Agrees (v.reread p.platform i j))
    (behind : Nat) :
    List.Forall₂ (List.Forall₂ Agrees) elements (rereadElements p behind elements) := by
  induction elements generalizing behind with
  | nil => exact .nil
  | cons element rest ih =>
    obtain ⟨here, later⟩ := List.forall_mem_cons.mp each
    exact .cons (agrees_rereadMembers here _ _) (ih later (behind + 1))

theorem agrees_reread {platform : Platform} {v : Value} (carried : v.Carried platform)
    (i j : Nat) : v.Agrees (v.reread platform i j) := by
  induction carried generalizing i j with
  | leaf carried => exact .leaf rfl (Leaf.reread_bytes carried i j)
  | @node p elements kind counts types all ih =>
    exact .node rfl (agrees_rereadElements (p := ⟨p.type, platform, i, j⟩) ih _)

end Value

end RecordCodec
