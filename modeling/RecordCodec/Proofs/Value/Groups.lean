import RecordCodec.Libraries.Standard
import RecordCodec.Proofs.Value.Changes
import RecordCodec.Proofs.Value.Walk
import RecordCodec.Proofs.Value.WellFormed

/-!
The elements of groups. A group has one element from the start, and nothing that is done to it or
inside of it changes that, but a push: it adds an element to a group as it does to a repeated field.
-/
namespace RecordCodec.Value

def inhabited : Law where
  leaf _ := True
  node p shape := p.type.kind = .group → shape ≠ []

def single (t : FieldType) : Law where
  leaf _ := True
  node p shape := p.type = t → t.kind = .group → shape.length = 1

theorem grows_inhabited (t : FieldType) : inhabited.Grows t :=
  fun _ _ _ _ _ => List.append_ne_nil_of_right_ne_nil _ (List.cons_ne_nil _ _)

theorem lasting_inhabited [Libraries] : inhabited.Lasting where
  fresh _ _ := trivial
  assign _ _ := trivial
  parse _ _ _ := trivial
  compose _ _ _ := trivial
  group _ _ _ := List.cons_ne_nil _ _
  read _ _ repeated group := by
    rw [group] at repeated
    cases repeated
  grow _ := grows_inhabited _

theorem grows_single {t u : FieldType} (other : u ≠ t) : (single t).Grows u :=
  fun _ _ here _ same => absurd (here.symm.trans same) other

theorem lasting_single [Libraries] (t : FieldType) : (single t).Lasting where
  fresh _ _ := trivial
  assign _ _ := trivial
  parse _ _ _ := trivial
  compose _ _ _ := trivial
  group _ _ _ _ := rfl
  read _ _ repeated same group := by
    rw [same, group] at repeated
    cases repeated
  grow repeated _ _ here _ same group := by
    rw [← here, same, group] at repeated
    cases repeated

/-- Whatever is done to a value, the groups in it have elements with one value for each field, in
the order of the fields: one element, where no group of the field takes a push. -/
theorem group_has_one_element [Libraries] {t : FieldType} {platform : Platform} {i j : Nat}
    {operations : List Operation} {p : Place} {elements : List (List Value)}
    (inside : node p elements ∈ ((t.freshAt platform i j).after operations).walk)
    (group : p.type.kind = .group) :
    elements ≠ [] ∧ (∀ members ∈ elements, members.map type = p.type.children) ∧
      ((t.freshAt platform i j).Spares (· = p.type) operations → elements.length = 1) := by
  have reached : ∀ {law : Law}, law.Lasting → (∀ u, law.Grows u) →
      (node p elements).Obeys law := fun lasting grows =>
    (obeys_reached lasting grows t platform i j operations).1.of_mem_walk _ inside
  refine ⟨?_, ?_, ?_⟩
  · cases reached lasting_inhabited grows_inhabited with
    | node here _ => exact fun none => here group (List.map_eq_nil_iff.mpr none)
  · intro members listed
    cases reached lasting_declared grows_declared with
    | node here _ =>
      obtain ⟨index, same⟩ := here.2 _ (List.mem_map_of_mem listed)
      rw [← p.types_memberPlaces index, ← same, List.map_map]
      rfl
  · intro spares
    have lasting := lasting_single p.type
    have obeys := obeys_after lasting (fun _ => grows_single)
      (t.obeys_freshAt lasting platform i j) spares
    cases obeys.1.of_mem_walk _ inside with
    | node here _ => simpa using here rfl group

namespace Sample

def values : FieldType :=
  .multiple { FieldType.ofKind (.text .short false) "MA" with length := 2 }

def pair : FieldType :=
  .group "AB" [{ FieldType.ofKind (.text .short false) "AC" with length := 3 }, values]

def filling : List Operation :=
  [⟨[.named "MA"], .push (.text ['X', 'Y'])⟩,
    ⟨[], .parse (.ofCall false 0) (.ofList .big [0x46, 0x47, 0x48, 0, 0, 0, 1, 0x41, 0x42])⟩]

def fresh : Value :=
  pair.freshAt .openSystem 0 0

theorem spares_filling : fresh.Spares (· = pair) filling := by
  refine ⟨fun s t _ made => ?_, nofun, trivial⟩
  have onto : (Operation.apply ⟨[.named "MA"], .push (.text ['X', 'Y'])⟩ fresh).1 =
      some (values, .ok ()) := rfl
  cases onto.symm.trans made
  exact fun same => nomatch congrArg FieldType.kind same

end Sample

theorem filled_pair_has_one_element : ∃ members,
    Sample.fresh.after Sample.filling = node (.top Sample.pair .openSystem) [members] ∧
      members.map type = Sample.pair.children ∧
      members.map text = ["FGH".toList, "[AB]".toList] := by
  obtain ⟨elements, same, texts⟩ : ∃ elements,
      Sample.fresh.after Sample.filling = node (.top Sample.pair .openSystem) elements ∧
        elements.map (List.map text) = [["FGH".toList, "[AB]".toList]] := ⟨_, rfl, by decide⟩
  have inside : node (.top Sample.pair .openSystem) elements ∈
      (Sample.fresh.after Sample.filling).walk := same ▸ mem_walk_self _
  obtain ⟨-, types, one⟩ := group_has_one_element inside rfl
  obtain ⟨members, rfl⟩ := List.length_eq_one_iff.mp (one Sample.spares_filling)
  exact ⟨members, same, types members (by simp), by simpa using texts⟩

theorem pushed_group_has_two_elements : ∃ p elements, p.type.kind = .group ∧
    (Sample.fresh.after [⟨[], .push (.text ['X', 'Y'])⟩]) = node p elements ∧ elements.length = 2 :=
  ⟨_, _, rfl, rfl, rfl⟩

end RecordCodec.Value
