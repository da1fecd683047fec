import RecordCodec.Value.Path

/-!
Changes inside of a value. The value that has a name, or that stands at a position, is replaced
where it stands, and what stands before it and behind it stays as it is.
-/
namespace RecordCodec.Value

variable {α β : Type} {name : String} {change : Value → α × Value} {a : α}

theorem modifyInMembers?_split {members members' : List Value}
    (h : modifyInMembers? name change members = some (a, members')) :
    ∃ before v v' behind, members = before ++ v :: behind ∧
      v.modifyNamed? name change = some (a, v') ∧ members' = before ++ v' :: behind := by
  induction members generalizing members' with
  | nil => cases h
  | cons v rest ih =>
    rw [modifyInMembers?] at h
    split at h
    · rename_i b v' changed
      cases h
      exact ⟨[], v, v', rest, rfl, changed, rfl⟩
    · obtain ⟨⟨b, rest'⟩, changed, same⟩ := Option.map_eq_some_iff.mp h
      cases same
      obtain ⟨before, w, w', behind, rfl, found, rfl⟩ := ih changed
      exact ⟨v :: before, w, w', behind, rfl, found, rfl⟩

theorem modifyInElements?_split {elements elements' : List (List Value)}
    (h : modifyInElements? name change elements = some (a, elements')) :
    ∃ before element element' behind, elements = before ++ element :: behind ∧
      modifyInMembers? name change element = some (a, element') ∧
      elements' = before ++ element' :: behind := by
  induction elements generalizing elements' with
  | nil => cases h
  | cons element rest ih =>
    rw [modifyInElements?] at h
    split at h
    · rename_i b element' changed
      cases h
      exact ⟨[], element, element', rest, rfl, changed, rfl⟩
    · obtain ⟨⟨b, rest'⟩, changed, same⟩ := Option.map_eq_some_iff.mp h
      cases same
      obtain ⟨before, other, other', behind, rfl, found, rfl⟩ := ih changed
      exact ⟨element :: before, other, other', behind, rfl, found, rfl⟩

theorem modifyPosition?_split {change : β → α × β} {i : Nat} {bs bs' : List β}
    (h : modifyPosition? change i bs = some (a, bs')) :
    ∃ before b behind, bs = before ++ b :: behind ∧ (change b).1 = a ∧
      bs' = before ++ (change b).2 :: behind := by
  induction bs generalizing i bs' with
  | nil => cases i <;> cases h
  | cons b rest ih =>
    cases i with
    | zero =>
      cases h
      exact ⟨[], b, rest, rfl, rfl, rfl⟩
    | succ i =>
      obtain ⟨⟨c, rest'⟩, changed, same⟩ := Option.map_eq_some_iff.mp h
      cases same
      obtain ⟨before, d, behind, rfl, outcome, rfl⟩ := ih changed
      exact ⟨b :: before, d, behind, rfl, outcome, rfl⟩

theorem forall_mem_replaced {P : β → Prop} {before behind : List β} {b b' : β}
    (all : ∀ c ∈ before ++ b :: behind, P c) (here : P b') :
    ∀ c ∈ before ++ b' :: behind, P c := by
  simp only [List.forall_mem_append, List.forall_mem_cons] at all ⊢
  exact ⟨all.1, here, all.2.2⟩

theorem modifyInMembers?_keeps {P : Value → Prop} {members members' : List Value}
    (each : ∀ v ∈ members, ∀ v', v.modifyNamed? name change = some (a, v') →
      P v' ∧ v'.place = v.place)
    (all : ∀ v ∈ members, P v)
    (h : modifyInMembers? name change members = some (a, members')) :
    (∀ v ∈ members', P v) ∧ members'.map place = members.map place := by
  obtain ⟨before, v, v', behind, rfl, changed, rfl⟩ := modifyInMembers?_split h
  obtain ⟨kept, same⟩ := each v (by simp) v' changed
  exact ⟨forall_mem_replaced all kept, by simp [same]⟩

theorem modifyInElements?_keeps {P : Value → Prop} {elements elements' : List (List Value)}
    (each : ∀ element ∈ elements, ∀ v ∈ element, ∀ v', v.modifyNamed? name change = some (a, v') →
      P v' ∧ v'.place = v.place)
    (all : ∀ element ∈ elements, ∀ v ∈ element, P v)
    (h : modifyInElements? name change elements = some (a, elements')) :
    (∀ element ∈ elements', ∀ v ∈ element, P v) ∧
      elements'.map (List.map place) = elements.map (List.map place) := by
  obtain ⟨before, element, element', behind, rfl, changed, rfl⟩ := modifyInElements?_split h
  obtain ⟨kept, same⟩ := modifyInMembers?_keeps (each element (by simp)) (all element (by simp))
    changed
  exact ⟨forall_mem_replaced all kept, by simp [same]⟩

end RecordCodec.Value
