import RecordCodec.Libraries.Standard
import RecordCodec.Proofs.Value.Changes
import RecordCodec.Proofs.Value.Walk

/-!
The numbers of occurrences. A read numbers them from the first one that is asked for; an occurrence
that is created or pushed gets its position as number. Occurrences are found by position, so both
agree where nothing was read or where the occurrences of a record start with number one. All numbers
are words of four bytes, and as many occurrences as there are words have numbers of their own.
-/
namespace RecordCodec

namespace Place

/-- The number of the element behind `k` others, of which a record gave the first `read`. -/
def elementNumber (p : Place) (read k : Nat) : Nat :=
  if k < read then p.type.occurrence.number k else Value.addedNumber k

def occurrenceOf (p q : Place) : Nat :=
  match p.type.kind with
  | .periodicGroup => q.periodicIndex
  | _ => q.multipleIndex

theorem occurrenceOf_memberPlaces {p q : Place} (repeated : p.type.kind.isRepeated = true)
    {index : Nat} (member : q ∈ p.memberPlaces index) : p.occurrenceOf q = index := by
  obtain ⟨t, -, rfl⟩ := List.mem_map.mp member
  cases kind : p.type.kind <;> simp_all [occurrenceOf, elementIndexes, FieldKind.isRepeated]

theorem elementNumber_eq {p : Place} {read : Nat} (agree : read = 0 ∨ p.type.occurrence.first = 1)
    (k : Nat) : p.elementNumber read k = Value.addedNumber k := by
  unfold elementNumber
  split
  · obtain none | first := agree
    · omega
    · rw [Occurrence.number, Value.addedNumber, first, UInt32.toNat_one, Nat.add_comm]
  · rfl

end Place

namespace Value

theorem addedNumber_lt {k : Nat} (word : k + 1 < UInt32.size) : addedNumber k = k + 1 :=
  Nat.mod_eq_of_lt word

theorem addedNumber_inj {k k' : Nat} (word : k < UInt32.size) (word' : k' < UInt32.size) :
    addedNumber k = addedNumber k' ↔ k = k' := by
  simp only [addedNumber, UInt32.size] at word word' ⊢
  omega

def occurrence? (index : Nat) : Value → Option (List Value)
  | leaf _ => none
  | node p elements => elements[occurrencePosition p index]?

/-- Every occurrence can be had and its members have its number, the occurrences with a number are
found by it, and no two have the same one. -/
structure Consistent (p : Place) (elements : List (List Value)) : Prop where
  found : ∀ index, 1 ≤ index → index < UInt32.size → ∃ members,
    ((node p elements).withOccurrence index).occurrence? index = some members ∧
      members.map type = p.type.children ∧ ∀ v ∈ members, p.occurrenceOf v.place = index
  kept : ∀ index, 1 ≤ index → index < UInt32.size → ∀ members ∈ elements, ∀ v ∈ members,
    p.occurrenceOf v.place = index → (node p elements).withOccurrence index = node p elements ∧
      (node p elements).occurrence? index = some members
  distinct : ∀ (k k' : Nat) (members members' : List Value) (v v' : Value),
    elements[k]? = some members → elements[k']? = some members' → v ∈ members → v' ∈ members' →
      p.occurrenceOf v.place = p.occurrenceOf v'.place → k = k'

def Enumerated (p : Place) (read : Nat) (shape : List (List Place)) : Prop :=
  read ≤ shape.length ∧
    ∀ k places, shape[k]? = some places → places = p.memberPlaces (p.elementNumber read k)

def enumerated : Law where
  leaf _ := True
  node p shape := p.type.kind.isRepeated = true → ∃ read, Enumerated p read shape

theorem Enumerated.grow {p : Place} {read : Nat} {shape : List (List Place)}
    (counts : Enumerated p read shape) :
    Enumerated p read (shape ++ [p.memberPlaces (addedNumber shape.length)]) := by
  obtain ⟨given, each⟩ := counts
  refine ⟨by rw [List.length_append]; omega, fun k places listed => ?_⟩
  rcases Nat.lt_or_ge k shape.length with before | behind
  · rw [List.getElem?_append_left before] at listed
    exact each k places listed
  · rw [List.getElem?_append_right behind, List.getElem?_singleton] at listed
    split at listed
    · rename_i last
      cases listed
      rw [Place.elementNumber, if_neg (by omega), show k = shape.length by omega]
    · cases listed

theorem grows_enumerated (t : FieldType) : enumerated.Grows t := by
  intro p shape _ here repeated
  obtain ⟨read, counts⟩ := here repeated
  exact ⟨read, counts.grow⟩

theorem lasting_enumerated [Libraries] : enumerated.Lasting where
  fresh _ _ := trivial
  assign _ _ := trivial
  parse _ _ _ := trivial
  compose _ _ _ := trivial
  group p kind repeated := by
    rw [kind] at repeated
    cases repeated
  read p count _ _ := by
    refine ⟨count, by simp, fun k places listed => ?_⟩
    rw [List.getElem?_map, Option.map_eq_some_iff] at listed
    obtain ⟨position, listed, rfl⟩ := listed
    obtain ⟨inside, same⟩ := List.getElem?_eq_some_iff.mp listed
    rw [List.length_range'] at inside
    rw [List.getElem_range', Nat.one_mul, Nat.zero_add] at same
    rw [Place.elementNumber, if_pos inside, same]
  grow _ := grows_enumerated _

section Growth

variable {p : Place} {elements : List (List Value)}

theorem withOccurrence_repeated (repeated : p.type.kind.isRepeated = true) {index : Nat}
    (counted : 1 ≤ index) :
    (node p elements).withOccurrence index = node p (growTo p index elements) := by
  rw [withOccurrence, if_pos repeated, Nat.max_eq_left counted]

theorem occurrence?_node (repeated : p.type.kind.isRepeated = true) (index : Nat) :
    (node p elements).occurrence? (index + 1) = elements[index]? := by
  rw [occurrence?, occurrencePosition, if_pos repeated, Nat.max_eq_left (by omega),
    Nat.add_sub_cancel]

theorem length_growTo (index : Nat) :
    (growTo p index elements).length = max elements.length index := by
  rw [growTo, List.length_append, List.length_map, List.length_range']
  omega

theorem growTo_eq {index : Nat} (present : index ≤ elements.length) :
    growTo p index elements = elements := by
  rw [growTo, Nat.sub_eq_zero_of_le present]
  simp

theorem enumerated_growTo {read : Nat} (counts : Enumerated p read (elements.map (List.map place)))
    (index : Nat) : Enumerated p read ((growTo p index elements).map (List.map place)) :=
  places_growTo p index elements ▸ grow_many (fun _ => Enumerated.grow) counts _

theorem Enumerated.places {read : Nat} (counts : Enumerated p read (elements.map (List.map place)))
    {k : Nat} {members : List Value} (listed : elements[k]? = some members) :
    members.map place = p.memberPlaces (p.elementNumber read k) :=
  counts.2 k _ (by rw [List.getElem?_map, listed, Option.map_some])

theorem Enumerated.occurrenceOf {read : Nat}
    (counts : Enumerated p read (elements.map (List.map place)))
    (repeated : p.type.kind.isRepeated = true) {k : Nat} {members : List Value}
    (listed : elements[k]? = some members) {v : Value} (member : v ∈ members) :
    p.occurrenceOf v.place = p.elementNumber read k := by
  exact Place.occurrenceOf_memberPlaces repeated (counts.places listed ▸ List.mem_map_of_mem member)

theorem Enumerated.occurrenceOf_eq {read : Nat}
    (counts : Enumerated p read (elements.map (List.map place)))
    (repeated : p.type.kind.isRepeated = true)
    (agree : read = 0 ∨ p.type.occurrence.first = 1) {k : Nat} {members : List Value}
    (listed : elements[k]? = some members) {v : Value} (member : v ∈ members) :
    p.occurrenceOf v.place = addedNumber k := by
  rw [counts.occurrenceOf repeated listed member, Place.elementNumber_eq agree]

theorem Enumerated.types {read : Nat} (counts : Enumerated p read (elements.map (List.map place)))
    {k : Nat} {members : List Value} (listed : elements[k]? = some members) :
    members.map type = p.type.children :=
  types_of_places (counts.places listed)

theorem exists_occurrence (repeated : p.type.kind.isRepeated = true)
    (elements : List (List Value)) (k : Nat) : ∃ members,
      ((node p elements).withOccurrence (k + 1)).occurrence? (k + 1) = some members ∧
        (growTo p (k + 1) elements)[k]? = some members := by
  rw [withOccurrence_repeated repeated (by omega), occurrence?_node repeated]
  have inside : k < (growTo p (k + 1) elements).length := by
    rw [length_growTo]
    omega
  exact ⟨_, List.getElem?_eq_getElem inside, List.getElem?_eq_getElem inside⟩

/-- The first element of a record has the number of its position only if the numbers start there. -/
theorem Consistent.starts {read : Nat} (consistent : Consistent p elements)
    (counts : Enumerated p read (elements.map (List.map place)))
    (repeated : p.type.kind.isRepeated = true) (children : p.type.children ≠ []) :
    read = 0 ∨ p.type.occurrence.first = 1 := by
  refine Classical.or_iff_not_imp_left.mpr fun given => ?_
  have present : 1 ≤ elements.length := by
    have bound := counts.1
    rw [List.length_map] at bound
    omega
  obtain ⟨members, found, types, numbers⟩ := consistent.found 1 (Nat.le_refl 1) (by decide)
  rw [withOccurrence_repeated repeated (Nat.le_refl 1), growTo_eq present,
    occurrence?_node repeated 0] at found
  obtain ⟨v, member⟩ : ∃ v, v ∈ members := by
    refine List.exists_mem_of_ne_nil _ fun none => children ?_
    rw [← types, none, List.map_nil]
  have number := counts.occurrenceOf repeated found member
  rw [numbers v member, Place.elementNumber, if_pos (by omega), Occurrence.number_zero] at number
  exact UInt32.toNat_inj.mp number.symm

theorem Consistent.few {read : Nat} (consistent : Consistent p elements)
    (counts : Enumerated p read (elements.map (List.map place)))
    (repeated : p.type.kind.isRepeated = true) (children : p.type.children ≠ [])
    (agree : read = 0 ∨ p.type.occurrence.first = 1) : elements.length ≤ UInt32.size := by
  by_contra many
  have member (k : Nat) (inside : k < elements.length) : ∃ members, ∃ v ∈ members,
      elements[k]? = some members ∧ p.occurrenceOf v.place = addedNumber k := by
    have listed : elements[k]? = some elements[k] := List.getElem?_eq_getElem inside
    obtain ⟨v, member⟩ : ∃ v, v ∈ elements[k] := by
      refine List.exists_mem_of_ne_nil _ fun none => children ?_
      rw [← counts.types listed, none, List.map_nil]
    exact ⟨_, v, member, listed, counts.occurrenceOf_eq repeated agree listed member⟩
  obtain ⟨members, v, inside, listed, number⟩ := member 0 (by omega)
  obtain ⟨members', v', inside', listed', number'⟩ := member UInt32.size (by omega)
  have same : p.occurrenceOf v.place = p.occurrenceOf v'.place := by
    rw [number, number']
    rfl
  have positions := consistent.distinct 0 UInt32.size _ _ v v' listed listed' inside inside' same
  exact absurd positions (by decide)

theorem consistent_of_childless {read : Nat}
    (counts : Enumerated p read (elements.map (List.map place)))
    (repeated : p.type.kind.isRepeated = true) (childless : p.type.children = []) :
    Consistent p elements := by
  have empty {elements : List (List Value)} (counts : Enumerated p read
      (elements.map (List.map place))) {k : Nat} {members : List Value}
      (listed : elements[k]? = some members) : members = [] := by
    have types := counts.types listed
    rwa [childless, List.map_eq_nil_iff] at types
  refine ⟨fun index counted word => ?_, fun index counted word members listed v member => ?_,
    fun k k' members members' v v' listed listed' member => ?_⟩
  · obtain ⟨k, rfl⟩ := Nat.exists_eq_add_of_le' counted
    obtain ⟨members, found, listed⟩ := exists_occurrence repeated elements k
    have grown := enumerated_growTo counts (k + 1)
    refine ⟨members, found, grown.types listed, fun v member => ?_⟩
    rw [empty grown listed] at member
    cases member
  · obtain ⟨k, listed⟩ := List.mem_iff_getElem?.mp listed
    rw [empty counts listed] at member
    cases member
  · rw [empty counts listed] at member
    cases member

/-- Where the numbers of the elements agree with their positions and none comes twice, finding by
position is finding by number. -/
theorem Enumerated.consistent {read : Nat}
    (counts : Enumerated p read (elements.map (List.map place)))
    (repeated : p.type.kind.isRepeated = true)
    (agree : read = 0 ∨ p.type.occurrence.first = 1) (few : elements.length ≤ UInt32.size) :
    Consistent p elements := by
  constructor
  · intro index counted word
    obtain ⟨k, rfl⟩ := Nat.exists_eq_add_of_le' counted
    obtain ⟨members, found, listed⟩ := exists_occurrence repeated elements k
    have grown := enumerated_growTo counts (k + 1)
    refine ⟨members, found, grown.types listed, fun v member => ?_⟩
    rw [grown.occurrenceOf_eq repeated agree listed member, addedNumber_lt word]
  · intro index counted word members listed v member same
    obtain ⟨k, listed⟩ := List.mem_iff_getElem?.mp listed
    have present := (List.getElem?_eq_some_iff.mp listed).1
    have number := counts.occurrenceOf_eq repeated agree listed member
    obtain ⟨i, rfl⟩ := Nat.exists_eq_add_of_le' counted
    rw [same, ← addedNumber_lt word, addedNumber_inj (by omega) (by omega)] at number
    subst number
    rw [withOccurrence_repeated repeated counted, growTo_eq present, occurrence?_node repeated]
    exact ⟨rfl, listed⟩
  · intro k k' members members' v v' listed listed' member member' same
    have inside := (List.getElem?_eq_some_iff.mp listed).1
    have inside' := (List.getElem?_eq_some_iff.mp listed').1
    rwa [counts.occurrenceOf_eq repeated agree listed member,
      counts.occurrenceOf_eq repeated agree listed' member',
      addedNumber_inj (by omega) (by omega)] at same

/-- Finding by position is finding by number unless a record gave elements whose numbers do not
start with one, or there are more elements than words. -/
theorem Enumerated.consistent_iff {read : Nat}
    (counts : Enumerated p read (elements.map (List.map place)))
    (repeated : p.type.kind.isRepeated = true) :
    Consistent p elements ↔ p.type.children = [] ∨
      (read = 0 ∨ p.type.occurrence.first = 1) ∧ elements.length ≤ UInt32.size := by
  constructor
  · intro consistent
    refine Classical.or_iff_not_imp_left.mpr fun children => ?_
    have agree := consistent.starts counts repeated children
    exact ⟨agree, consistent.few counts repeated children agree⟩
  · rintro (childless | ⟨agree, few⟩)
    · exact consistent_of_childless counts repeated childless
    · exact counts.consistent repeated agree few

end Growth

/-- Whatever is done to a value, the elements of its repeated fields are those that a record gave,
numbered from the first one asked for, and behind them those with their position as number. -/
theorem occurrences_numbered [Libraries] {t : FieldType} {platform : Platform} {i j : Nat}
    {operations : List Operation} {p : Place} {elements : List (List Value)}
    (inside : node p elements ∈ ((t.freshAt platform i j).after operations).walk)
    (repeated : p.type.kind.isRepeated = true) :
    ∃ read ≤ elements.length,
      (∀ k members, elements[k]? = some members →
        members.map place = p.memberPlaces (p.elementNumber read k)) ∧
      (Consistent p elements ↔ p.type.children = [] ∨
        (read = 0 ∨ p.type.occurrence.first = 1) ∧ elements.length ≤ UInt32.size) := by
  have obeys := obeys_reached lasting_enumerated grows_enumerated t platform i j operations
  cases obeys.1.of_mem_walk _ inside with
  | node here _ =>
    obtain ⟨read, counts⟩ := here repeated
    have given := counts.1
    rw [List.length_map] at given
    exact ⟨read, given, fun _ _ listed => counts.places listed, counts.consistent_iff repeated⟩

namespace Sample

def codes : FieldType :=
  .multiple { FieldType.ofKind (.text .short false) "MA" with length := 2 }

def renewal : List Operation :=
  [⟨[], .push (.text ['X', 'Y'])⟩,
    ⟨[], .parse (.ofCall false 0) (.ofList .big [0, 0, 0, 2, 0x41, 0x42, 0x43, 0x44])⟩,
    ⟨[], .reach 4⟩]

def third : FieldType :=
  codes.withOccurrence (.index 3)

def numbers (elements : List (List Value)) : List (List Nat) :=
  elements.map (List.map fun v => v.place.multipleIndex)

end Sample

theorem codes_numbered : ∃ elements,
    (Sample.codes.freshAt .openSystem 0 0).after Sample.renewal =
      node (.top Sample.codes .openSystem) elements ∧
    Sample.numbers elements = [[1], [2], [3], [4]] ∧
    Consistent (.top Sample.codes .openSystem) elements := by
  obtain ⟨elements, same, numbers⟩ : ∃ elements,
      (Sample.codes.freshAt .openSystem 0 0).after Sample.renewal =
        node (.top Sample.codes .openSystem) elements ∧
      Sample.numbers elements = [[1], [2], [3], [4]] := ⟨_, rfl, rfl⟩
  have inside : node (.top Sample.codes .openSystem) elements ∈
      ((Sample.codes.freshAt .openSystem 0 0).after Sample.renewal).walk :=
    same ▸ mem_walk_self _
  have four := congrArg List.length numbers
  rw [Sample.numbers, List.length_map] at four
  obtain ⟨read, -, -, consistent⟩ := occurrences_numbered inside rfl
  exact ⟨elements, same, numbers, consistent.mpr (.inr ⟨.inr rfl, four.trans_le (by decide)⟩)⟩

/-- The value with number three is the first one, and occurrence three is created again. -/
theorem third_value_duplicated : ∃ elements grown,
    (Sample.third.freshAt .openSystem 0 0).after
        [⟨[], .parse (.ofCall false 0) (.ofList .big [0x41, 0x41])⟩] =
      node (.top Sample.third .openSystem) elements ∧
    (node (.top Sample.third .openSystem) elements).withOccurrence 3 =
      node (.top Sample.third .openSystem) grown ∧
    Sample.numbers elements = [[3]] ∧ Sample.numbers grown = [[3], [2], [3]] ∧
    ¬Consistent (.top Sample.third .openSystem) elements := by
  refine ⟨_, _, rfl, rfl, rfl, rfl, fun consistent => ?_⟩
  have same := (consistent.kept 3 (by decide) (by decide) _ (List.mem_singleton_self _) _
    (List.mem_singleton_self _) rfl).1
  cases same

end Value

end RecordCodec
