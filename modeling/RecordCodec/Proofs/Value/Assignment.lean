import RecordCodec.Value.Tree

/-!
What an assignment keeps: the place of a value, and with it the field that it belongs to.
-/
namespace RecordCodec

theorem FieldType.place_freshAt (platform : Platform) (i j : Nat) (t : FieldType) :
    (t.freshAt platform i j).place = ⟨t, platform, i, j⟩ := by
  cases t with
  | mk kind =>
    cases kind <;> rfl

theorem FieldType.place_fresh (platform : Platform) (t : FieldType) :
    (t.fresh platform).place = ⟨t, platform, 0, 0⟩ :=
  t.place_freshAt platform 0 0

theorem FieldType.leaf_of_freshAt {platform : Platform} {i j : Nat} {t : FieldType} {l : Leaf}
    (h : t.freshAt platform i j = .leaf l) : l = .fresh ⟨t, platform, i, j⟩ := by
  cases t with
  | mk kind =>
    cases kind <;> cases h <;> rfl

namespace Leaf

theorem place_assign [Libraries] {l l' : Leaf} {s : Scalar} (h : l.assign s = .ok l') :
    l'.place = l.place := by
  rw [assign] at h
  cases content : l.assignContent s with
  | error fault => rw [content] at h; cases h
  | ok c =>
    rw [content] at h
    cases h
    rfl

theorem place_assignOperand [Libraries] {l l' : Leaf} {s : Scalar}
    (h : l.assignOperand s = .ok l') :
    l'.place = l.place := by
  unfold assignOperand at h
  split at h
  · cases h
    rfl
  · exact place_assign h

end Leaf

namespace Value

variable [Libraries]

theorem place_assign {v v' : Value} {s : Scalar} (h : v.assign s = .ok v') :
    v'.place = v.place := by
  cases v with
  | node p elements => cases h
  | leaf l =>
    rw [assign] at h
    cases assigned : l.assign s with
    | error fault => rw [assigned] at h; cases h
    | ok l' =>
      rw [assigned] at h
      cases h
      exact Leaf.place_assign assigned

theorem assignOperand_leaf {v v' : Value} {s : Scalar} (h : v.assignOperand s = .ok v') :
    ∃ l l', v = leaf l ∧ v' = leaf l' ∧ l.assignOperand s = .ok l' := by
  cases v with
  | node p elements => cases h
  | leaf l =>
    rw [assignOperand] at h
    cases assigned : l.assignOperand s with
    | error fault => rw [assigned] at h; cases h
    | ok l' =>
      rw [assigned] at h
      cases h
      exact ⟨l, l', rfl, rfl, assigned⟩

theorem place_assignOperand {v v' : Value} {s : Scalar} (h : v.assignOperand s = .ok v') :
    v'.place = v.place := by
  obtain ⟨l, l', rfl, rfl, assigned⟩ := assignOperand_leaf h
  exact Leaf.place_assignOperand assigned

end Value

end RecordCodec
