import RecordCodec.Definition.Record
import RecordCodec.Proofs.Value.Unrepeated

/-!
Definitions after any assignments. Whatever succeeds or fails, every field keeps its place and a
content that it can have.
-/
namespace RecordCodec.Definition

def after [Libraries] (d : Definition) (step : String × Scalar) : Definition :=
  match d.assign step.1 step.2 with
  | .ok d' => d'
  | .error _ => d

def afterAll [Libraries] (d : Definition) (steps : List (String × Scalar)) : Definition :=
  steps.foldl after d

/-- Fields that records carry whole, with a value for each top-level one in its place. -/
structure Unrepeated (d : Definition) : Prop where
  exchanged : ∀ t ∈ d.types, t.Exchanged
  places : d.values.map Value.place = d.types.map fun t => .top t d.platform
  values : ∀ v ∈ d.values, v.Unrepeated

theorem unrepeated_ofTypes {platform : Platform} {types : List FieldType} {d : Definition}
    (exchanged : ∀ t ∈ types, t.Exchanged) (h : ofTypes platform types = .ok d) :
    d.Unrepeated ∧ d.platform = platform ∧ d.types = types := by
  obtain ⟨index, -, h⟩ := Outcome.bind_ok.mp h
  cases h
  refine ⟨⟨exchanged, ?_, ?_⟩, rfl, rfl⟩
  · show (types.map (FieldType.fresh platform)).map Value.place = _
    rw [List.map_map]
    exact List.map_congr_left fun t _ => t.place_fresh platform
  · intro v hv
    obtain ⟨t, ht, rfl⟩ := List.mem_map.mp hv
    exact Value.unrepeated_freshAt (exchanged t ht) platform 0 0

theorem unrepeated_after [Libraries] {d : Definition} (unrepeated : d.Unrepeated)
    (step : String × Scalar) :
    (d.after step).Unrepeated ∧ (d.after step).platform = d.platform ∧
      (d.after step).types = d.types := by
  unfold after
  cases assigned : d.assign step.1 step.2 with
  | error fault => exact ⟨unrepeated, rfl, rfl⟩
  | ok d' =>
    unfold assign at assigned
    dsimp only at assigned
    split at assigned
    · cases assigned
    · rename_i d'' modified
      cases assigned
      obtain ⟨⟨outcome, values⟩, changed, same⟩ := Option.map_eq_some_iff.mp modified
      cases same
      have kept : (∀ v ∈ values, v.Unrepeated) ∧
          values.map Value.place = d.values.map Value.place := by
        refine Value.modifyInMembers?_keeps (fun v hv _ => Value.modifyNamed?_keeps ?_
          (unrepeated.values v hv)) unrepeated.values changed
        intro v plain
        dsimp only
        cases result : v.assign step.2 with
        | error fault => exact ⟨plain, rfl⟩
        | ok v' => exact Value.unrepeated_assign plain result
      exact ⟨⟨unrepeated.exchanged, kept.2.trans unrepeated.places, kept.1⟩, rfl, rfl⟩
    · cases assigned

theorem unrepeated_afterAll [Libraries] {d : Definition} (unrepeated : d.Unrepeated)
    (steps : List (String × Scalar)) : (d.afterAll steps).Unrepeated ∧
      (d.afterAll steps).platform = d.platform ∧ (d.afterAll steps).types = d.types := by
  induction steps generalizing d with
  | nil => exact ⟨unrepeated, rfl, rfl⟩
  | cons step steps ih =>
    obtain ⟨kept, platform, types⟩ := unrepeated_after unrepeated step
    obtain ⟨reached, platform', types'⟩ := ih kept
    exact ⟨reached, platform'.trans platform, types'.trans types⟩

end RecordCodec.Definition
