import RecordCodec.Proofs.Value.Transfer

/-!
Values as a read finds them after a store. An empty text has become a blank; everything else reads
as it was.
-/
namespace RecordCodec

namespace Leaf

def written (l : Leaf) : Leaf :=
  match l.content with
  | .text size unicode c =>
    let payload := TextField.payload c.bytes
    { l with content := .text size unicode (.whole payload) }
  | _ => l

@[simp] theorem place_written (l : Leaf) : l.written.place = l.place := by
  unfold written
  split <;> rfl

end Leaf

namespace Value

mutual

def written : Value → Value
  | leaf l => leaf l.written
  | node p elements => node p (writtenElements elements)

def writtenElements : List (List Value) → List (List Value)
  | [] => []
  | element :: rest => writtenMembers element :: writtenElements rest

def writtenMembers : List Value → List Value
  | [] => []
  | v :: rest => v.written :: writtenMembers rest

end

mutual

def walk : Value → List Value
  | leaf l => [leaf l]
  | node p elements => node p elements :: walkElements elements

def walkElements : List (List Value) → List Value
  | [] => []
  | element :: rest => walkMembers element ++ walkElements rest

def walkMembers : List Value → List Value
  | [] => []
  | v :: rest => v.walk ++ walkMembers rest

end

def isEmptyText : Value → Bool
  | leaf ⟨_, .text _ _ c⟩ => c.bytes.isEmpty
  | _ => false

@[simp] theorem place_written (v : Value) : v.written.place = v.place := by
  cases v with
  | leaf l => exact l.place_written
  | node p elements => rw [written, place, place]

theorem isEmptyText_iff {v : Value} : v.isEmptyText = true ↔
    ∃ p size unicode announced, v = leaf ⟨p, .text size unicode ⟨[], announced⟩⟩ := by
  constructor
  · intro empty
    unfold isEmptyText at empty
    split at empty
    · rename_i p size unicode c
      obtain ⟨bytes, announced⟩ := c
      have none : bytes = [] := List.isEmpty_iff.mp empty
      subst none
      exact ⟨p, size, unicode, announced, rfl⟩
    · cases empty
  · rintro ⟨p, size, unicode, announced, rfl⟩
    rfl

theorem leaf_written [Libraries] {l : Leaf} (given : (leaf l).isEmptyText = false) :
    l.written.bytes = l.bytes ∧ l.written.text = l.text := by
  obtain ⟨p, content⟩ := l
  cases content with
  | text size unicode c =>
    have payload : TextField.payload c.bytes = c.bytes := by
      have given : c.bytes.isEmpty = false := given
      rw [TextField.payload, given]
      rfl
    simp [Leaf.written, Leaf.bytes, Leaf.text, payload]
  | integer | octets | float | packed | unpacked | superDescriptor | pseudo => exact ⟨rfl, rfl⟩

mutual

theorem text_written [Libraries] (v : Value) (given : ∀ part ∈ v.walk, part.isEmptyText = false) :
    v.written.text = v.text := by
  match v with
  | leaf l =>
    have here := given (leaf l) (by simp [walk])
    simpa [written, text] using (leaf_written here).2
  | node p elements =>
    have later : ∀ part ∈ walkElements elements, part.isEmptyText = false := fun part inside =>
      given part (by simp [walk, inside])
    rw [written, text, text, elementTexts_written elements later]

theorem elementTexts_written [Libraries] (elements : List (List Value))
    (given : ∀ part ∈ walkElements elements, part.isEmptyText = false) :
    elementTexts (writtenElements elements) = elementTexts elements := by
  match elements with
  | [] => rfl
  | element :: rest =>
    have here : ∀ part ∈ walkMembers element, part.isEmptyText = false := fun part inside =>
      given part (by simp [walkElements, inside])
    have later : ∀ part ∈ walkElements rest, part.isEmptyText = false := fun part inside =>
      given part (by simp [walkElements, inside])
    rw [writtenElements, elementTexts, elementTexts, memberTexts_written element here,
      elementTexts_written rest later]

theorem memberTexts_written [Libraries] (members : List Value)
    (given : ∀ part ∈ walkMembers members, part.isEmptyText = false) :
    memberTexts (writtenMembers members) = memberTexts members := by
  match members with
  | [] => rfl
  | v :: rest =>
    have here : ∀ part ∈ v.walk, part.isEmptyText = false := fun part inside =>
      given part (by simp [walkMembers, inside])
    have later : ∀ part ∈ walkMembers rest, part.isEmptyText = false := fun part inside =>
      given part (by simp [walkMembers, inside])
    rw [writtenMembers, memberTexts, memberTexts, text_written v here,
      memberTexts_written rest later]

end

mutual

theorem walk_written (v : Value) : v.written.walk = v.walk.map written := by
  match v with
  | leaf l => simp [written, walk]
  | node p elements => simp [written, walk, walkElements_written elements]

theorem walkElements_written (elements : List (List Value)) :
    walkElements (writtenElements elements) = (walkElements elements).map written := by
  match elements with
  | [] => rfl
  | element :: rest =>
    simp [writtenElements, walkElements, walkMembers_written element, walkElements_written rest]

theorem walkMembers_written (members : List Value) :
    walkMembers (writtenMembers members) = (walkMembers members).map written := by
  match members with
  | [] => rfl
  | v :: rest => simp [writtenMembers, walkMembers, walk_written v, walkMembers_written rest]

end

end Value

end RecordCodec
