import RecordCodec.Proofs.Value.WellFormed
import RecordCodec.Proofs.Value.Written
import RecordCodec.Value.Parse
import RecordCodec.Value.Store

/-!
Values in a record. A store of a value and a read into any value of the same field are inverse, up
to the blank that an empty text is written as.
-/
namespace RecordCodec

namespace Leaf

theorem exchange {l : Leaf} (suited : l.Suited)
    (whole : ∀ size unicode, l.place.type.kind = .text size unicode →
      l.place.type.partialRange = none)
    (kind : l.place.type.kind.Exchanged l.place.type.length) (order : ByteOrder) :
    ∃ record, (∀ r : Request, r.isFollowUp = false → l.store order r = .ok (.whole record)) ∧
      ∀ before : Content, before.IsOf l.place.type.kind →
        ∀ (r : Request) (taken rest : List UInt8), r.isFollowUp = false →
          parse r ⟨order, taken, record ++ rest⟩ ⟨l.place, before⟩ =
            (l.written, .ok (.done ⟨order, record.reverse ++ taken, rest⟩)) := by
  obtain ⟨p, content⟩ := l
  -- the kind of the field decides the content of the source and of any target
  have source := Content.Suits.of_kind suited
  have target := fun before (typed : Content.IsOf p.type.kind before) => typed.of_kind
  cases same : p.type.kind with
  | binary width signed =>
    simp only [same] at source target
    obtain ⟨v, rfl, low, high⟩ := source
    refine ⟨IntegerField.encode order width v, fun r first => by simp [store, first], ?_⟩
    intro before typed r taken rest first
    obtain ⟨v0, rfl⟩ := target before typed
    simp [parse, first, readContent, (IntegerField.consumes_read low high order).whole, Except.map,
      written]
  | octets =>
    simp only [same] at source target
    obtain ⟨bytes, rfl, extent⟩ := source
    refine ⟨order.frame 1 p.type.length bytes, fun r first => ?_, ?_⟩
    · simp [store, first, storeShort_eq p bytes order]
    · intro before typed r taken rest first
      obtain ⟨bytes0, rfl⟩ := target before typed
      simp [parse, first, readContent, (consumes_readShort extent order).whole, Except.map, written]
  | packed | unpacked =>
    simp only [same, FieldKind.Exchanged] at source target kind
    obtain ⟨bytes, rfl, length⟩ := source
    have extent : Occupies 1 p.type.length bytes.length := (occupies_fixed kind).mpr (length kind)
    refine ⟨order.frame 1 p.type.length bytes, fun r first => ?_, ?_⟩
    · simp [store, first, storeDecimal_fixed kind, ByteOrder.frame_fixed kind]
    · intro before typed r taken rest first
      obtain ⟨bytes0, rfl⟩ := target before typed
      simp [parse, first, readContent, (consumes_readShort extent order).whole, Except.map, written]
  | text size unicode =>
    simp only [same] at source target kind
    obtain ⟨c, rfl, occupies⟩ := source
    have whole : p.type.partialRange = none := whole size unicode same
    have extent := TextField.occupies_payload (occupies whole)
    have small : TextField.isLob p size = false := by
      cases size with
      | short | long => rfl
      | large => simpa [TextField.isLob, FieldKind.Exchanged] using kind
    refine ⟨order.frame size.header p.type.length (TextField.payload c.bytes),
      fun r first => ?_, ?_⟩
    · simp [store, TextField.store, whole, small, first, TextField.storeWhole_eq]
    · intro before typed r taken rest first
      obtain ⟨c0, rfl⟩ := target before typed
      simp [parse, TextField.parse, first, whole, small,
        (TextField.consumes_readWhole extent order).whole, written]
  | float | superDescriptor | pseudo | group | periodicGroup | multiple =>
    simp [same, FieldKind.Exchanged] at kind

end Leaf

namespace Value

def Exchanges (order : ByteOrder) (v : Value) : Prop :=
  ∃ record, (∀ r : Request, r.isFollowUp = false → v.store order r = .ok (.whole record)) ∧
    ∀ target : Value, target.Unrepeated → target.place = v.place →
      ∀ (r : Request) (taken rest : List UInt8), r.isFollowUp = false →
        target.parse r ⟨order, taken, record ++ rest⟩ =
          (v.written, .ok (.done ⟨order, record.reverse ++ taken, rest⟩))

theorem exchanges_leaf {l : Leaf} (flat : l.place.type.kind.isStructure = false)
    (suited : l.Suited) (exchanged : l.place.type.Exchanged) (order : ByteOrder) :
    (leaf l).Exchanges order := by
  have kind : l.place.type.kind.Exchanged l.place.type.length := by
    cases exchanged with
    | field whole kind => exact kind
    | group whole kind members =>
      rw [kind] at flat
      cases flat
  obtain ⟨record, stored, read⟩ :=
    Leaf.exchange suited (fun _ _ _ => exchanged.whole.unrestricted) kind order
  refine ⟨record, stored, ?_⟩
  intro target unrepeated same r taken rest first
  cases unrepeated with
  | leaf flat0 suited0 =>
    rename_i l0
    have place : l0.place = l.place := same
    have typed : l0.content.IsOf l.place.type.kind := place ▸ suited0.isOf flat0
    have before := read l0.content typed r taken rest first
    rw [← place] at before
    rw [parse, before, written]
  | group kind0 places0 all0 =>
    rename_i p0 members0
    have place : p0 = l.place := same
    rw [← place, kind0] at flat
    cases flat

theorem exchanges_members (order : ByteOrder) {vs : List Value}
    (each : ∀ v ∈ vs, v.Exchanges order ∧ v.type.isReadOnly = false) :
    ∃ record, (∀ r : Request, r.isFollowUp = false →
        storeMembers order r vs = .ok (.whole record)) ∧
      ∀ targets : List Value, (∀ v ∈ targets, v.Unrepeated) →
        targets.map place = vs.map place → ∀ (r : Request) (taken rest : List UInt8),
        r.isFollowUp = false → parseMembers r ⟨order, taken, record ++ rest⟩ targets =
          (writtenMembers vs, .ok ⟨⟨order, record.reverse ++ taken, rest⟩, .none⟩) := by
  induction vs with
  | nil =>
    refine ⟨[], fun r first => rfl, ?_⟩
    intro targets _ same r taken rest first
    cases targets with
    | nil => rfl
    | cons target targets => cases same
  | cons v vs ih =>
    obtain ⟨⟨record, stored, read⟩, writable⟩ := each v (List.mem_cons_self ..)
    obtain ⟨records, allStored, allRead⟩ := ih fun u hu => each u (List.mem_cons_of_mem v hu)
    refine ⟨record ++ records, fun r first => ?_, ?_⟩
    · rw [storeMembers, writable, stored r first, allStored r first]
      exact congrArg Except.ok (Chunk.append_whole record records)
    · intro targets unrepeated same r taken rest first
      cases targets with
      | nil => cases same
      | cons target targets =>
        obtain ⟨here, later⟩ := List.cons.inj same
        rw [parseMembers, List.append_assoc, read target
          (unrepeated target (List.mem_cons_self ..)) here r taken (records ++ rest) first]
        dsimp only [Progress.done]
        rw [allRead targets (fun u hu => unrepeated u (List.mem_cons_of_mem target hu)) later r
          (record.reverse ++ taken) rest first, List.reverse_append, List.append_assoc]
        rfl

theorem exchanges {v : Value} (unrepeated : v.Unrepeated) (exchanged : v.type.Exchanged)
    (order : ByteOrder) : v.Exchanges order := by
  induction unrepeated with
  | leaf flat suited => exact exchanges_leaf flat suited exchanged order
  | @group p members kind places all ih =>
    have fields : ∀ t ∈ p.type.children, t.Exchanged := by
      cases exchanged with
      | field whole kind0 =>
        have absurd : p.type.kind.Exchanged p.type.length := kind0
        rw [kind] at absurd
        cases absurd
      | group whole kind0 fields => exact fields
    have typed : ∀ v ∈ members, v.type.Exchanged := by
      intro v hv
      have listed : v.place ∈ members.map place := List.mem_map_of_mem hv
      rw [places] at listed
      obtain ⟨t, ht, same⟩ := List.mem_map.mp listed
      rw [type, ← same]
      exact fields t ht
    obtain ⟨record, stored, read⟩ := exchanges_members order fun v hv =>
      ⟨ih v hv (typed v hv), (typed v hv).whole.written⟩
    have single : p.type.kind.isRepeated = false := by
      rw [kind]
      rfl
    refine ⟨record, fun r first => ?_, ?_⟩
    · rw [store, single, storeElements, stored r first, storeElements]
      show Except.ok ((Chunk.whole record).append (.whole [])) = _
      rw [Chunk.append_whole, List.append_nil]
    · intro target other same r taken rest first
      cases other with
      | leaf flat0 suited0 =>
        rename_i l0
        have place : l0.place = p := same
        rw [place, kind] at flat0
        cases flat0
      | @group p0 members0 kind0 places0 all0 =>
        have place : p0 = p := same
        subst place
        rw [parse, single]
        simp only [parseElements, read members0 all0 (places0.trans places.symm) r taken rest first]
        rfl

end Value

end RecordCodec
