import RecordCodec.Definition.Record
import RecordCodec.Proofs.Request
import RecordCodec.Proofs.Value.Walk

/-!
Values without the plain groups around them. A read goes through a group as through its members, so
what it does to a record is what it does to the fields and repeated fields in it, one after another.
-/
namespace RecordCodec

namespace Value

mutual

def parts : Value → List Value
  | leaf l => [leaf l]
  | node p elements =>
    if p.type.kind.isRepeated then [node p elements] else partsOfElements elements

def partsOfElements : List (List Value) → List Value
  | [] => []
  | element :: rest => partsOfMembers element ++ partsOfElements rest

def partsOfMembers : List Value → List Value
  | [] => []
  | v :: rest => v.parts ++ partsOfMembers rest

end

variable {r : Request}

def readBehind (before : List Value × Except FieldFault Remainder) (vs : List Value)
    (read : ByteQueue → List Value × Except FieldFault Remainder) :
    List Value × Except FieldFault Remainder :=
  match before with
  | (us, .error fault) => (us ++ vs, .error fault)
  | (us, .ok after) =>
    match read after.queue with
    | (vs, .error fault) => (us ++ vs, .error fault)
    | (vs, .ok left) => (us ++ vs, .ok ⟨left.queue, after.followUp.join left.followUp⟩)

theorem parseMembers_append (us vs : List Value) (q : ByteQueue) :
    parseMembers r q (us ++ vs) =
      readBehind (parseMembers r q us) vs fun q => parseMembers r q vs := by
  induction us generalizing q with
  | nil =>
    rw [List.nil_append, parseMembers, readBehind]
    dsimp only
    rcases parseMembers r q vs with ⟨vs', fault | left⟩
    · rfl
    · simp only [FollowUp.none_join]
      rfl
  | cons u us ih =>
    rw [List.cons_append, parseMembers, parseMembers]
    rcases u.parse r q with ⟨u', fault | progress⟩
    · rfl
    · dsimp only
      rw [ih]
      rcases parseMembers r progress.queue us with ⟨us', fault | after⟩
      · rfl
      · dsimp only [readBehind]
        rcases parseMembers r after.queue vs with ⟨vs', fault | left⟩
        · rfl
        · simp only [FollowUp.join_assoc]
          rfl

theorem parseMembers_singleton (u : Value) (q : ByteQueue) :
    parseMembers r q [u] = ([(u.parse r q).1],
      (u.parse r q).2.map fun progress => ⟨progress.queue, progress.followUp⟩) := by
  rw [parseMembers]
  rcases u.parse r q with ⟨u', fault | progress⟩ <;> rfl

theorem paired_parse_leaf (l : Leaf) (q : ByteQueue) : Outcome.paired ((leaf l).parse r q) =
    (Outcome.paired (l.parse r q)).map fun (l, progress) => (leaf l, progress) := by
  rw [parse]
  rcases l.parse r q with ⟨l', _ | progress⟩ <;> rfl

theorem paired_parseMembers_cons (u : Value) (rest : List Value) (q : ByteQueue) :
    Outcome.paired (parseMembers r q (u :: rest)) =
      Outcome.paired (u.parse r q) >>= fun (u, progress) =>
        (Outcome.paired (parseMembers r progress.queue rest)).map fun (rest, left) =>
          (u :: rest, ⟨left.queue, progress.followUp.join left.followUp⟩) := by
  rw [parseMembers]
  rcases u.parse r q with ⟨u', _ | progress⟩
  · rfl
  · show _ = (Outcome.paired (parseMembers r progress.queue rest)).map _
    dsimp only
    rcases parseMembers r progress.queue rest with ⟨rest', _ | left⟩ <;> rfl

mutual

theorem parse_parts (v : Value) (q : ByteQueue) : parseMembers r q v.parts =
    ((v.parse r q).1.parts,
      (v.parse r q).2.map fun progress => ⟨progress.queue, progress.followUp⟩) := by
  match v with
  | leaf l =>
    rw [parts, parseMembers_singleton]
    rfl
  | node p elements =>
    by_cases repeated : p.type.kind.isRepeated = true
    · have same : ((node p elements).parse r q).1.parts = [((node p elements).parse r q).1] := by
        rw [parse, repeated]
        cases r.isFollowUp with
        | true => exact if_pos repeated
        | false =>
          rcases p.readRepeated r q with fault | ⟨elements', left⟩ <;> exact if_pos repeated
      rw [same, parts, if_pos repeated, parseMembers_singleton]
    · rw [parts, if_neg repeated, parseElements_parts elements q, parse]
      simp only [repeated]
      rcases parseElements r q elements with ⟨elements', fault | left⟩ <;>
        simp [parts, repeated, Except.map]

theorem parseElements_parts (elements : List (List Value)) (q : ByteQueue) :
    parseMembers r q (partsOfElements elements) =
      (partsOfElements (parseElements r q elements).1, (parseElements r q elements).2) := by
  match elements with
  | [] => rfl
  | element :: rest =>
    rw [partsOfElements, parseMembers_append, parseMembers_parts element q, parseElements]
    rcases parseMembers r q element with ⟨element', fault | after⟩
    · rfl
    · dsimp only [readBehind]
      rw [parseElements_parts rest after.queue]
      rcases parseElements r after.queue rest with ⟨rest', fault | left⟩ <;> rfl

theorem parseMembers_parts (vs : List Value) (q : ByteQueue) :
    parseMembers r q (partsOfMembers vs) =
      (partsOfMembers (parseMembers r q vs).1, (parseMembers r q vs).2) := by
  match vs with
  | [] => rfl
  | v :: rest =>
    rw [partsOfMembers, parseMembers_append, parse_parts v q, parseMembers]
    rcases v.parse r q with ⟨v', fault | progress⟩
    · rfl
    · dsimp only [readBehind, Except.map]
      rw [parseMembers_parts rest progress.queue]
      rcases parseMembers r progress.queue rest with ⟨rest', fault | left⟩ <;> rfl

end

mutual

theorem tokens_parts (reads : r.store = false) (v : Value) :
    v.tokens r = v.parts.flatMap (Value.tokens r) := by
  match v with
  | leaf l => rw [parts, List.flatMap_singleton]
  | node p elements =>
    by_cases repeated : p.type.kind.isRepeated = true
    · rw [parts, if_pos repeated, List.flatMap_singleton]
    · rw [parts, if_neg repeated, ← elementTokens_parts reads elements, tokens]
      simp [repeated]

theorem elementTokens_parts (reads : r.store = false) (elements : List (List Value)) :
    elementTokens r elements = (partsOfElements elements).flatMap (Value.tokens r) := by
  match elements with
  | [] => rfl
  | element :: rest =>
    rw [elementTokens, partsOfElements, List.flatMap_append, memberTokens_parts reads element,
      elementTokens_parts reads rest]

theorem memberTokens_parts (reads : r.store = false) (vs : List Value) :
    memberTokens r vs = (partsOfMembers vs).flatMap (Value.tokens r) := by
  match vs with
  | [] => rfl
  | v :: rest =>
    rw [memberTokens, partsOfMembers, List.flatMap_append, reads, tokens_parts reads v,
      memberTokens_parts reads rest]
    rfl

end

theorem mem_partsOfMembers {vs : List Value} {u : Value} :
    u ∈ partsOfMembers vs ↔ ∃ v ∈ vs, u ∈ v.parts := by
  induction vs with
  | nil => simp [partsOfMembers]
  | cons v rest ih => rw [partsOfMembers, List.mem_append, ih, List.exists_mem_cons_iff]

theorem mem_partsOfElements {elements : List (List Value)} {u : Value} :
    u ∈ partsOfElements elements ↔ ∃ element ∈ elements, ∃ v ∈ element, u ∈ v.parts := by
  induction elements with
  | nil => simp [partsOfElements]
  | cons element rest ih =>
    rw [partsOfElements, List.mem_append, mem_partsOfMembers, ih, List.exists_mem_cons_iff]

/-- A part is a value inside and no group; outside of repeated fields it has no occurrence
numbers. -/
theorem of_mem_parts {v : Value} (formed : v.WellFormed) (periodic : v.place.periodicIndex = 0)
    (multiple : v.place.multipleIndex = 0) : ∀ u ∈ v.parts, u ∈ v.walk ∧ u.type.kind ≠ .group ∧
      u.place.periodicIndex = 0 ∧ u.place.multipleIndex = 0 := by
  induction formed with
  | @leaf l typed =>
    intro u inside
    cases List.mem_singleton.mp inside
    refine ⟨List.mem_singleton.mpr rfl, ?_, periodic, multiple⟩
    intro group
    cases (congrArg FieldKind.isStructure group).symm.trans typed.flat
  | @node p elements kind places all ih =>
    have formed : (Value.node p elements).WellFormed := .node kind places all
    intro u inside
    by_cases repeated : p.type.kind.isRepeated = true
    · rw [parts, if_pos repeated] at inside
      cases List.mem_singleton.mp inside
      refine ⟨mem_walk_self _, ?_, periodic, multiple⟩
      intro group
      cases (congrArg FieldKind.isRepeated group).symm.trans repeated
    · rw [parts, if_neg repeated] at inside
      obtain ⟨element, listed, v, member, inside⟩ := mem_partsOfElements.mp inside
      obtain ⟨samePeriodic, zero⟩ := formed.member_indexes (Bool.eq_false_iff.mpr repeated) listed
        member
      obtain ⟨deep, plain⟩ := ih element listed v member (samePeriodic.trans periodic) zero u inside
      exact ⟨mem_walk_node.mpr (.inr ⟨element, listed, v, member, deep⟩), plain⟩

inductive Flat : Value → Prop where
  | leaf (l : Leaf) : Flat (leaf l)
  | repeated (p : Place) (elements : List (List Value)) (kind : p.type.kind.isRepeated = true) :
    Flat (node p elements)

theorem WellFormed.flat {u : Value} (formed : u.WellFormed) (single : u.type.kind ≠ .group) :
    u.Flat := by
  cases formed with
  | leaf typed => exact .leaf _
  | @node p elements kind =>
    refine .repeated p elements ?_
    have single : p.type.kind ≠ .group := single
    cases same : p.type.kind <;> simp_all [FieldKind.isStructure, FieldKind.isRepeated]

theorem exists_part {v : Value} (formed : v.WellFormed) {l : Leaf} (inside : leaf l ∈ v.walk) :
    ∃ u ∈ v.parts, leaf l ∈ u.walk := by
  induction formed with
  | leaf => exact ⟨_, List.mem_singleton.mpr rfl, inside⟩
  | @node p elements kind places all ih =>
    by_cases repeated : p.type.kind.isRepeated = true
    · exact ⟨_, by rw [parts, if_pos repeated]; exact List.mem_singleton.mpr rfl, inside⟩
    · rcases mem_walk_node.mp inside with same | ⟨element, listed, v, member, deep⟩
      · cases same
      · obtain ⟨u, part, deep⟩ := ih element listed v member deep
        refine ⟨u, ?_, deep⟩
        rw [parts, if_neg repeated]
        exact mem_partsOfElements.mpr ⟨element, listed, v, member, part⟩

end Value

end RecordCodec
