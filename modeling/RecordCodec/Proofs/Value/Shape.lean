import RecordCodec.Proofs.Outcome
import RecordCodec.Proofs.Value.Assignment
import RecordCodec.Proofs.Value.Path
import RecordCodec.Value.Parse

/-!
Laws for values with parts. A law asks something of every field in a value, and of every structure
in it by the places of the values in its elements. Operations build new elements, add elements one
by one and change values where they stand, so a law that survives these survives every operation.
-/
namespace RecordCodec

theorem FieldKind.isStructure_of_isRepeated {kind : FieldKind} (repeated : kind.isRepeated = true) :
    kind.isStructure = true := by
  cases kind <;> first | rfl | cases repeated

def Place.memberPlaces (p : Place) (index : Nat) : List Place :=
  p.type.children.map fun t =>
    ⟨t, p.platform, (p.elementIndexes index).1, (p.elementIndexes index).2⟩

theorem Place.types_memberPlaces (p : Place) (index : Nat) :
    (p.memberPlaces index).map type = p.type.children := by
  simp [memberPlaces, Function.comp_def]

theorem Value.types_of_places {p : Place} {element : List Value} {index : Nat}
    (same : element.map place = p.memberPlaces index) : element.map type = p.type.children := by
  rw [← p.types_memberPlaces index, ← same, List.map_map]
  rfl

namespace FieldType

theorem freshAt_leaf {t : FieldType} (flat : t.kind.isStructure = false)
    (platform : Platform) (i j : Nat) :
    t.freshAt platform i j = .leaf (.fresh ⟨t, platform, i, j⟩) := by
  cases t with
  | mk kind =>
    cases kind <;> first | rfl | cases flat

theorem freshAt_group {t : FieldType} (kind : t.kind = .group) (platform : Platform)
    (i j : Nat) :
    t.freshAt platform i j = .node ⟨t, platform, i, j⟩ [freshMembers platform i 0 t.children] := by
  cases t with
  | mk =>
    cases kind
    rfl

theorem freshMembers_eq_map (platform : Platform) (i j : Nat) (ts : List FieldType) :
    freshMembers platform i j ts = ts.map (freshAt platform i j) := by
  induction ts with
  | nil => rfl
  | cons t ts ih => rw [freshMembers, ih, List.map_cons]

theorem places_freshMembers (platform : Platform) (i j : Nat) (ts : List FieldType) :
    (freshMembers platform i j ts).map Value.place = ts.map fun t => ⟨t, platform, i, j⟩ := by
  rw [freshMembers_eq_map, List.map_map]
  exact List.map_congr_left fun t _ => t.place_freshAt platform i j

theorem readAt_leaf {t : FieldType} (flat : t.kind.isStructure = false) (r : Request)
    (platform : Platform) (i j : Nat) (q : ByteQueue) :
    t.readAt r platform i j q =
      match (Leaf.fresh ⟨t, platform, i, j⟩).parse r q with
      | (_, .error fault) => .error fault
      | (l, .ok progress) => .ok (.leaf l, ⟨progress.queue, progress.followUp⟩) := by
  cases t with
  | mk kind =>
    cases kind <;> first | rfl | cases flat

end FieldType

@[simp] theorem Leaf.place_parse (l : Leaf) (r : Request) (q : ByteQueue) :
    (l.parse r q).1.place = l.place := by
  unfold parse
  split
  · rfl
  · rfl
  · split
    · rfl
    · split <;> rfl

namespace Value

/-- What is asked of the fields in a value and, by the places of the values in their elements, of
the structures in it. -/
structure Law where
  leaf : Leaf → Prop
  node : Place → List (List Place) → Prop

inductive Obeys (law : Law) : Value → Prop where
  | leaf {l : Leaf} (here : law.leaf l) : Obeys law (.leaf l)
  | node {p : Place} {elements : List (List Value)}
      (here : law.node p (elements.map (List.map place)))
      (inside : ∀ element ∈ elements, ∀ v ∈ element, Obeys law v) : Obeys law (.node p elements)

def Law.Grows (law : Law) (t : FieldType) : Prop :=
  ∀ ⦃p : Place⦄ ⦃shape : List (List Place)⦄, p.type = t → law.node p shape →
    law.node p (shape ++ [p.memberPlaces (addedNumber shape.length)])

/-- A law that new fields and elements obey, and that one more occurrence does not break. -/
structure Law.Lasting [Libraries] (law : Law) : Prop where
  fresh : ∀ p : Place, p.type.kind.isStructure = false → law.leaf (.fresh p)
  assign : ∀ {l l' : Leaf} {s : Scalar}, law.leaf l → l.assign s = .ok l' → law.leaf l'
  parse : ∀ {l : Leaf} (r : Request) (q : ByteQueue), law.leaf l → law.leaf (l.parse r q).1
  compose : ∀ {l : Leaf} {before : List UInt8} (bytes : List UInt8), law.leaf l →
    l.content = .superDescriptor before → law.leaf { l with content := .superDescriptor bytes }
  group : ∀ p : Place, p.type.kind = .group → law.node p [p.memberPlaces 0]
  read : ∀ (p : Place) (count : Nat), p.type.kind.isRepeated = true →
    law.node p ((List.range' 0 count).map fun k => p.memberPlaces (p.type.occurrence.number k))
  grow : ∀ {t : FieldType}, t.kind.isRepeated = true → law.Grows t

theorem Law.Lasting.empty [Libraries] {law : Law} (lasting : law.Lasting) {p : Place}
    (repeated : p.type.kind.isRepeated = true) : law.node p [] :=
  lasting.read p 0 repeated

end Value

open Value (Law Obeys place)

variable {law : Law} {r : Request}

mutual

theorem FieldType.obeys_freshAt [Libraries] (lasting : law.Lasting) (platform : Platform)
    (i j : Nat)
    (t : FieldType) : (t.freshAt platform i j).Obeys law := by
  match t with
  | ⟨kind, shortName, name, length, fraction, options, flags, charset, part, children, occurrence,
      superEntries⟩ =>
    cases kind with
    | group =>
      refine .node ?_ ?_
      · rw [List.map_singleton, places_freshMembers]
        exact lasting.group _ rfl
      · rw [List.forall_mem_singleton]
        exact obeys_freshMembers lasting platform i 0 children
    | periodicGroup | multiple => exact .node (lasting.empty rfl) (by simp)
    | binary | octets | float | packed | unpacked | text | superDescriptor | pseudo =>
      exact .leaf (lasting.fresh _ rfl)

theorem FieldType.obeys_freshMembers [Libraries] (lasting : law.Lasting) (platform : Platform)
    (i j : Nat)
    (types : List FieldType) : ∀ v ∈ freshMembers platform i j types, v.Obeys law := by
  match types with
  | [] => simp [freshMembers]
  | t :: rest =>
    rw [freshMembers, List.forall_mem_cons]
    exact ⟨obeys_freshAt lasting platform i j t, obeys_freshMembers lasting platform i j rest⟩

end

theorem Place.obeys_freshElement [Libraries] (lasting : law.Lasting) (p : Place) (index : Nat) :
    ∀ v ∈ p.freshElement index, v.Obeys law :=
  FieldType.obeys_freshMembers lasting _ _ _ _

theorem Place.places_freshElement (p : Place) (index : Nat) :
    (p.freshElement index).map place = p.memberPlaces index :=
  FieldType.places_freshMembers ..

theorem readOccurrences_each {α : Type} {P : α → Prop}
    {read : Nat → ByteQueue → Except FieldFault (α × Remainder)}
    (each : ∀ index q a left, read index q = .ok (a, left) → P a) {count index : Nat}
    {q : ByteQueue} {as : List α} {left : Remainder}
    (h : readOccurrences read count index q = .ok (as, left)) : ∀ a ∈ as, P a := by
  induction count generalizing index q as left with
  | zero =>
    cases h
    simp
  | succ count ih =>
    obtain ⟨⟨first, after⟩, readFirst, h⟩ := Outcome.bind_ok.mp h
    obtain ⟨⟨others, left'⟩, readOthers, h⟩ := Outcome.bind_ok.mp h
    cases h
    exact List.forall_mem_cons.mpr ⟨each _ _ _ _ readFirst, ih readOthers⟩

theorem readOccurrences_map {α β : Type} {f : α → β} {g : Nat → β}
    {read : Nat → ByteQueue → Except FieldFault (α × Remainder)}
    (each : ∀ k q a left, read k q = .ok (a, left) → f a = g k) {count k : Nat}
    {q : ByteQueue} {as : List α} {left : Remainder}
    (h : readOccurrences read count k q = .ok (as, left)) :
    as.map f = (List.range' k count).map g := by
  induction count generalizing k q as left with
  | zero =>
    cases h
    rfl
  | succ count ih =>
    obtain ⟨⟨first, after⟩, readFirst, h⟩ := Outcome.bind_ok.mp h
    obtain ⟨⟨others, left'⟩, readOthers, h⟩ := Outcome.bind_ok.mp h
    cases h
    rw [List.map_cons, each _ _ _ _ readFirst, ih readOthers, List.range'_succ, List.map_cons]

theorem Place.obeys_readElements [Libraries] (lasting : law.Lasting) {p : Place}
    (repeated : p.type.kind.isRepeated = true) {q : ByteQueue}
    {read : Nat → ByteQueue → Except FieldFault (List Value × Remainder)}
    (each : ∀ index q element left, read index q = .ok (element, left) →
      element.map place = p.memberPlaces index ∧ ∀ v ∈ element, v.Obeys law)
    {elements : List (List Value)} {left : Remainder}
    (h : p.readElements q read = .ok (elements, left)) : (Value.node p elements).Obeys law := by
  unfold readElements at h
  split at h
  · cases h
  · rename_i count q' counted
    have each := fun k => each (p.type.occurrence.number k)
    have places := readOccurrences_map
      (fun k q element left read => (each k q element left read).1) h
    exact .node (places ▸ lasting.read p count repeated)
      (readOccurrences_each (fun k q element left read => (each k q element left read).2) h)

theorem FieldType.obeys_readAt_leaf [Libraries] (lasting : law.Lasting) {platform : Platform}
    {i j : Nat}
    {q : ByteQueue} {t : FieldType} {v : Value} {left : Remainder}
    (flat : t.kind.isStructure = false) (h : t.readAt r platform i j q = .ok (v, left)) :
    v.Obeys law ∧ v.place = ⟨t, platform, i, j⟩ := by
  have kept := lasting.parse r q (lasting.fresh ⟨t, platform, i, j⟩ flat)
  have same := (Leaf.fresh ⟨t, platform, i, j⟩).place_parse r q
  rw [readAt_leaf flat] at h
  split at h
  · cases h
  · rename_i l progress parsed
    cases h
    rw [parsed] at kept same
    exact ⟨.leaf kept, same⟩

mutual

theorem FieldType.obeys_readAt [Libraries] (lasting : law.Lasting) {platform : Platform} {i j : Nat}
    {q : ByteQueue} {t : FieldType} {v : Value} {left : Remainder}
    (h : t.readAt r platform i j q = .ok (v, left)) :
    v.Obeys law ∧ v.place = ⟨t, platform, i, j⟩ := by
  match t with
  | ⟨kind, shortName, name, length, fraction, options, flags, charset, part, children, occurrence,
      superEntries⟩ =>
    cases kind with
    | group =>
      obtain ⟨⟨members, left'⟩, read, h⟩ := Outcome.bind_ok.mp h
      cases h
      obtain ⟨places, all⟩ := obeys_readMembers lasting read
      refine ⟨.node ?_ (List.forall_mem_singleton.mpr all), rfl⟩
      rw [List.map_singleton, places]
      exact lasting.group _ rfl
    | periodicGroup | multiple =>
      unfold readAt at h
      dsimp only at h
      split at h
      · cases h
        exact ⟨.node (lasting.empty rfl) (by simp), rfl⟩
      · obtain ⟨⟨elements, left'⟩, read, h⟩ := Outcome.bind_ok.mp h
        cases h
        exact ⟨Place.obeys_readElements lasting (by rfl)
          (fun index q element left read => obeys_readMembers lasting read) read, rfl⟩
    | binary | octets | float | packed | unpacked | text | superDescriptor | pseudo =>
      exact obeys_readAt_leaf lasting (by rfl) h

theorem FieldType.obeys_readMembers [Libraries] (lasting : law.Lasting) {platform : Platform}
    {i j : Nat}
    {q : ByteQueue} {types : List FieldType} {vs : List Value} {left : Remainder}
    (h : readMembers r platform i j q types = .ok (vs, left)) :
    vs.map place = types.map (fun t => ⟨t, platform, i, j⟩) ∧ ∀ v ∈ vs, v.Obeys law := by
  match types with
  | [] =>
    cases h
    simp
  | t :: rest =>
    obtain ⟨⟨v, after⟩, readFirst, h⟩ := Outcome.bind_ok.mp h
    obtain ⟨⟨others, left'⟩, readOthers, h⟩ := Outcome.bind_ok.mp h
    cases h
    obtain ⟨obeys, here⟩ := obeys_readAt lasting readFirst
    obtain ⟨places, all⟩ := obeys_readMembers lasting readOthers
    exact ⟨by rw [List.map_cons, List.map_cons, here, places],
      List.forall_mem_cons.mpr ⟨obeys, all⟩⟩

end

namespace Value

theorem Obeys.inside {p : Place} {elements : List (List Value)}
    (obeys : (Value.node p elements).Obeys law) :
    ∀ element ∈ elements, ∀ v ∈ element, v.Obeys law := by
  cases obeys with
  | node here inside => exact inside

theorem Obeys.replaced {p : Place} {elements elements' : List (List Value)}
    (obeys : (Value.node p elements).Obeys law)
    (all : ∀ element ∈ elements', ∀ v ∈ element, v.Obeys law)
    (same : elements'.map (List.map place) = elements.map (List.map place)) :
    (Value.node p elements').Obeys law := by
  cases obeys with
  | node here inside => exact .node (same ▸ here) all

theorem Obeys.append {p : Place} {elements more : List (List Value)}
    (obeys : (Value.node p elements).Obeys law)
    (here : law.node p ((elements ++ more).map (List.map place)))
    (added : ∀ element ∈ more, ∀ v ∈ element, v.Obeys law) :
    (Value.node p (elements ++ more)).Obeys law :=
  .node here (List.forall_mem_append.mpr ⟨obeys.inside, added⟩)

theorem obeys_assign [Libraries] (lasting : law.Lasting) {v v' : Value} {s : Scalar}
    (obeys : v.Obeys law)
    (h : v.assign s = .ok v') : v'.Obeys law ∧ v'.place = v.place := by
  cases obeys with
  | node => cases h
  | leaf here =>
    obtain ⟨l', assigned, rfl⟩ := Outcome.map_ok.mp h
    exact ⟨.leaf (lasting.assign here assigned), Leaf.place_assign assigned⟩

theorem grow_many {p : Place} {allowed : List (List Place) → Prop}
    (one : ∀ shape, allowed shape → allowed (shape ++ [p.memberPlaces (addedNumber shape.length)]))
    {shape : List (List Place)} (here : allowed shape) (count : Nat) :
    allowed (shape ++
      (List.range' shape.length count).map fun k => p.memberPlaces (addedNumber k)) := by
  induction count with
  | zero => simpa using here
  | succ count ih =>
    have next := one _ ih
    rw [List.length_append, List.length_map, List.length_range', List.append_assoc] at next
    rw [List.range'_concat, List.map_append, List.map_singleton, Nat.one_mul]
    exact next

theorem places_growTo (p : Place) (index : Nat) (elements : List (List Value)) :
    (growTo p index elements).map (List.map place) = elements.map (List.map place) ++
      (List.range' (elements.map (List.map place)).length (index - elements.length)).map
        fun k => p.memberPlaces (addedNumber k) := by
  rw [growTo, List.map_append, List.map_map, List.length_map]
  congr 1
  exact List.map_congr_left fun k _ => p.places_freshElement (addedNumber k)

theorem obeys_withOccurrence [Libraries] (lasting : law.Lasting) (index : Nat) {v : Value}
    (obeys : v.Obeys law) :
    (v.withOccurrence index).Obeys law ∧ (v.withOccurrence index).place = v.place := by
  cases v with
  | leaf l => exact ⟨obeys, rfl⟩
  | node p elements =>
    rw [withOccurrence]
    by_cases repeated : p.type.kind.isRepeated = true
    · rw [if_pos repeated]
      refine ⟨obeys.append ?_ ?_, rfl⟩
      · cases obeys with
        | node here inside =>
          have many := grow_many (fun _ => lasting.grow repeated rfl) here
          exact places_growTo p (max index 1) elements ▸ many _
      · intro element listed
        obtain ⟨k, -, rfl⟩ := List.mem_map.mp listed
        exact p.obeys_freshElement lasting (addedNumber k)
    · rw [if_neg repeated]
      exact ⟨obeys, rfl⟩

theorem obeys_push [Libraries] (lasting : law.Lasting) {v v' : Value} {s : Scalar}
    (obeys : v.Obeys law)
    (grows : law.Grows v.type) (h : v.push s = .ok v') : v'.Obeys law ∧ v'.place = v.place := by
  cases v with
  | leaf l => cases h
  | node p elements =>
    have grown : law.node p
        (elements.map (List.map place) ++ [p.memberPlaces (addedNumber elements.length)]) := by
      cases obeys with
      | node here inside =>
        have one := grows rfl here
        rwa [List.length_map] at one
    have added := p.obeys_freshElement lasting (addedNumber elements.length)
    have places := p.places_freshElement (addedNumber elements.length)
    rw [push] at h
    -- The scalar goes into the first member of the new element; without members there is none.
    cases fresh : p.freshElement (addedNumber elements.length) with
    | nil =>
      rw [fresh] at h places
      cases h
      refine ⟨obeys.append ?_ (by simp), rfl⟩
      rw [List.map_append, List.map_singleton, places]
      exact grown
    | cons first rest =>
      rw [fresh] at h places added
      obtain ⟨here, others⟩ := List.forall_mem_cons.mp added
      obtain ⟨first', assigned, rfl⟩ := Outcome.map_ok.mp h
      obtain ⟨kept, same⟩ := obeys_assign lasting here assigned
      refine ⟨obeys.append ?_ ?_, rfl⟩
      · rw [List.map_append, List.map_singleton, List.map_cons, same, ← List.map_cons, places]
        exact grown
      · exact List.forall_mem_singleton.mpr (List.forall_mem_cons.mpr ⟨kept, others⟩)

mutual

theorem obeys_parse [Libraries] (lasting : law.Lasting) (q : ByteQueue) {v : Value}
    (obeys : v.Obeys law) :
    (v.parse r q).1.Obeys law ∧ (v.parse r q).1.place = v.place := by
  match v with
  | leaf l =>
    cases obeys with
    | leaf here => exact ⟨.leaf (lasting.parse r q here), Leaf.place_parse ..⟩
  | node p elements =>
    obtain ⟨kept, same⟩ := obeys_parseElements lasting q elements obeys.inside
    rw [parse]
    split
    · split <;>
        · rename_i elements' outcome parsed
          rw [parsed] at kept same
          exact ⟨obeys.replaced kept same, rfl⟩
    · rename_i repeated
      split
      · exact ⟨obeys, rfl⟩
      · split
        · exact ⟨obeys, rfl⟩
        · rename_i elements' left read
          refine ⟨Place.obeys_readElements lasting (by simpa using repeated) ?_ read, rfl⟩
          exact fun index q element left read => FieldType.obeys_readMembers lasting read

theorem obeys_parseElements [Libraries] (lasting : law.Lasting) (q : ByteQueue)
    (elements : List (List Value))
    (all : ∀ element ∈ elements, ∀ v ∈ element, v.Obeys law) :
    (∀ element ∈ (parseElements r q elements).1, ∀ v ∈ element, v.Obeys law) ∧
      (parseElements r q elements).1.map (List.map place) = elements.map (List.map place) := by
  match elements with
  | [] => exact ⟨all, rfl⟩
  | element :: rest =>
    obtain ⟨here, later⟩ := List.forall_mem_cons.mp all
    obtain ⟨kept, same⟩ := obeys_parseMembers lasting q element here
    rw [parseElements]
    split
    · rename_i element' fault parsed
      rw [parsed] at kept same
      exact ⟨List.forall_mem_cons.mpr ⟨kept, later⟩, by rw [List.map_cons, List.map_cons, same]⟩
    · rename_i element' after parsed
      rw [parsed] at kept same
      obtain ⟨keptRest, sameRest⟩ := obeys_parseElements lasting after.queue rest later
      split <;>
        · rename_i rest' outcome parsed'
          rw [parsed'] at keptRest sameRest
          exact ⟨List.forall_mem_cons.mpr ⟨kept, keptRest⟩,
            by rw [List.map_cons, List.map_cons, same, sameRest]⟩

theorem obeys_parseMembers [Libraries] (lasting : law.Lasting) (q : ByteQueue)
    (members : List Value)
    (all : ∀ v ∈ members, v.Obeys law) :
    (∀ v ∈ (parseMembers r q members).1, v.Obeys law) ∧
      (parseMembers r q members).1.map place = members.map place := by
  match members with
  | [] => exact ⟨all, rfl⟩
  | v :: rest =>
    obtain ⟨here, later⟩ := List.forall_mem_cons.mp all
    obtain ⟨kept, same⟩ := obeys_parse lasting q here
    rw [parseMembers]
    split
    · rename_i v' fault parsed
      rw [parsed] at kept same
      exact ⟨List.forall_mem_cons.mpr ⟨kept, later⟩, by rw [List.map_cons, List.map_cons, same]⟩
    · rename_i v' progress parsed
      rw [parsed] at kept same
      obtain ⟨keptRest, sameRest⟩ := obeys_parseMembers lasting progress.queue rest later
      split <;>
        · rename_i rest' outcome parsed'
          rw [parsed'] at keptRest sameRest
          exact ⟨List.forall_mem_cons.mpr ⟨kept, keptRest⟩,
            by rw [List.map_cons, List.map_cons, same, sameRest]⟩

end

/-- Whenever its result is allowed, a change keeps a value in its place and under the law. -/
def Law.KeptBy {α : Type} (law : Law) (allowed : α → Prop) (change : Value → α × Value) : Prop :=
  ∀ v, v.Obeys law → allowed (change v).1 → (change v).2.Obeys law ∧ (change v).2.place = v.place

section Change

variable {α : Type} {allowed : α → Prop} {change : Value → α × Value}

theorem obeys_modifyNamed? (kept : law.KeptBy allowed change) {name : String} {v v' : Value} {a : α}
    (obeys : v.Obeys law) (h : v.modifyNamed? name change = some (a, v')) (fine : allowed a) :
    v'.Obeys law ∧ v'.place = v.place := by
  induction obeys generalizing v' with
  | @leaf l here =>
    unfold modifyNamed? at h
    split at h
    · have result := kept (.leaf l) (.leaf here)
      rw [Option.some.inj h] at result
      exact result fine
    · cases h
  | @node p elements here inside ih =>
    have obeys : (node p elements).Obeys law := .node here inside
    unfold modifyNamed? at h
    split at h
    · have result := kept (.node p elements) obeys
      rw [Option.some.inj h] at result
      exact result fine
    · obtain ⟨⟨b, elements'⟩, changed, same⟩ := Option.map_eq_some_iff.mp h
      cases same
      obtain ⟨all, places⟩ := modifyInElements?_keeps
        (fun element listed v member v' found => ih element listed v member found) inside changed
      exact ⟨obeys.replaced all places, rfl⟩

theorem obeys_modifyPosition? (kept : law.KeptBy allowed change) {i : Nat}
    {members members' : List Value} {a : α} (all : ∀ v ∈ members, v.Obeys law)
    (h : modifyPosition? change i members = some (a, members')) (fine : allowed a) :
    (∀ v ∈ members', v.Obeys law) ∧ members'.map place = members.map place := by
  obtain ⟨before, v, behind, rfl, rfl, rfl⟩ := modifyPosition?_split h
  obtain ⟨obeys, same⟩ := kept v (all v (by simp)) fine
  exact ⟨forall_mem_replaced all obeys, by simp [same]⟩

theorem keptBy_modifyAt [Libraries] (lasting : law.Lasting) (kept : law.KeptBy allowed change)
    (path : List PathStep) :
    law.KeptBy (fun outcome => ∀ a, outcome = some a → allowed a) (modifyAt change path) := by
  induction path with
  | nil => exact fun v obeys fine => kept v obeys (fine _ rfl)
  | cons step path ih =>
    intro v obeys fine
    cases step with
    | named name =>
      rw [modifyAt] at fine ⊢
      split
      · rename_i a v' changed
        rw [changed] at fine
        exact obeys_modifyNamed? ih obeys changed fine
      · exact ⟨obeys, rfl⟩
    | member occurrence position =>
      -- The occurrence is created even where the rest of the path leads nowhere.
      obtain ⟨grown, place_grown⟩ := obeys_withOccurrence lasting occurrence obeys
      rw [modifyAt] at fine ⊢
      split
      · rename_i l same
        rw [same] at grown place_grown
        exact ⟨grown, place_grown⟩
      · rename_i p elements same
        simp only [same] at fine grown place_grown
        dsimp only
        split
        · rename_i a elements' changed
          simp only [changed] at fine
          obtain ⟨before, element, behind, rfl, outcome, rfl⟩ := modifyPosition?_split changed
          have all := grown.inside element (by simp)
          split at outcome
          · rename_i b element' inner
            cases outcome
            obtain ⟨all', same'⟩ := obeys_modifyPosition? ih all inner fine
            refine ⟨grown.replaced (forall_mem_replaced grown.inside ?_) ?_, place_grown⟩
            · simpa only [inner] using all'
            · simp [same']
          · rename_i missing
            refine ⟨grown.replaced (forall_mem_replaced grown.inside ?_) ?_, place_grown⟩
            · simpa only [missing] using all
            · simp
        · exact ⟨grown, place_grown⟩

end Change

end Value

end RecordCodec
