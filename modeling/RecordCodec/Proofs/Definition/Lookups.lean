import RecordCodec.Libraries.Standard
import RecordCodec.Proofs.Definition.Sites
import RecordCodec.Proofs.Value.Groups

/-!
The two ways from a name to a field. The index knows the first field that has the name, the values
know the first value that has it, and a repeated field without occurrences has no values in it. Both
ways end at the same field as long as a name leads to that field only, whatever occurrences there
are.
-/
namespace RecordCodec

namespace FieldType

mutual

/-- Whether every value of the field has one called `name` in it: a plain group has values of its
fields, a repeated field can be without any. -/
def ensures (name : String) (t : FieldType) : Bool :=
  match t with
  | { kind := kind, children := children, .. } =>
    t.answers name || (kind == .group && anyEnsures name children)

def anyEnsures (name : String) : List FieldType → Bool
  | [] => false
  | t :: rest => t.ensures name || anyEnsures name rest

end

mutual

/-- The fields that the first value called `name` in a value of the field can belong to. -/
def leads (name : String) (t : FieldType) : List FieldType :=
  match t with
  | { kind := kind, children := children, .. } =>
    if t.answers name then [t]
    else if kind.isStructure then leadsOfAll name children else []

def leadsOfAll (name : String) : List FieldType → List FieldType
  | [] => []
  | t :: rest => t.leads name ++ if t.ensures name then [] else leadsOfAll name rest

end

theorem anyEnsures_eq (name : String) (types : List FieldType) :
    anyEnsures name types = types.any (ensures name) := by
  induction types with
  | nil => rfl
  | cons t rest ih => rw [anyEnsures, ih, List.any_cons]

theorem ensures_eq (name : String) (t : FieldType) : t.ensures name =
    (t.answers name || (t.kind == .group && t.children.any (ensures name))) := by
  rw [← anyEnsures_eq]
  cases t
  rfl

theorem leads_eq (name : String) (t : FieldType) : t.leads name =
    if t.answers name then [t]
    else if t.kind.isStructure then leadsOfAll name t.children else [] := by
  cases t
  rfl

theorem leads_of_answers {name : String} {t : FieldType} (named : t.answers name = true) :
    t.leads name = [t] := by
  rw [leads_eq, if_pos named]

theorem leads_of_isStructure {name : String} {t : FieldType} (other : t.answers name = false)
    (kind : t.kind.isStructure = true) : t.leads name = leadsOfAll name t.children := by
  rw [leads_eq, if_neg (by simp [other]), if_pos kind]

theorem mem_leadsOfAll {name : String} {types : List FieldType} {u : FieldType} :
    u ∈ leadsOfAll name types ↔ ∃ before t behind, types = before ++ t :: behind ∧
      (∀ s ∈ before, s.ensures name = false) ∧ u ∈ t.leads name := by
  induction types with
  | nil => simp [leadsOfAll]
  | cons s rest ih =>
    rw [leadsOfAll, List.mem_append]
    constructor
    · rintro (here | later)
      · exact ⟨[], s, rest, rfl, by simp, here⟩
      · split at later
        · cases later
        · rename_i free
          obtain ⟨before, t, behind, rfl, passed, inside⟩ := ih.mp later
          exact ⟨s :: before, t, behind, rfl,
            List.forall_mem_cons.mpr ⟨Bool.eq_false_iff.mpr free, passed⟩, inside⟩
    · rintro ⟨before, t, behind, split, passed, inside⟩
      cases before with
      | nil =>
        cases split
        exact .inl inside
      | cons s' before =>
        cases split
        obtain ⟨here, later⟩ := List.forall_mem_cons.mp passed
        rw [here]
        exact .inr (ih.mpr ⟨before, t, behind, rfl, later, inside⟩)

theorem answers_of_mem_leads {name : String} {t u : FieldType} (inside : u ∈ t.leads name) :
    u ∈ t.walk ∧ u.answers name = true := by
  induction t using induct with
  | step t ih =>
    rw [leads_eq] at inside
    split at inside
    · rename_i here
      cases List.mem_singleton.mp inside
      exact ⟨mem_walk_self _, here⟩
    · split at inside
      · obtain ⟨before, m, behind, split, -, inside⟩ := mem_leadsOfAll.mp inside
        have child : m ∈ t.children := by simp [split]
        obtain ⟨deep, named⟩ := ih m child inside
        exact ⟨mem_walk_of_children (mem_walkAll.mpr ⟨m, child, deep⟩), named⟩
      · cases inside

end FieldType

namespace Value

/-- A value of the shape of its field, with elements in its groups. -/
structure Sound (v : Value) : Prop where
  formed : v.WellFormed
  stocked : v.Obeys inhabited

section Finding

variable {name : String}

theorem find?_of_answers {v : Value} (named : v.type.answers name = true) :
    v.find? name = some v := by
  unfold find?
  exact if_pos named

theorem find?_leaf {l : Leaf} (other : l.place.type.answers name = false) :
    (leaf l).find? name = none := by
  unfold find?
  exact if_neg (Bool.eq_false_iff.mp other)

theorem find?_node {p : Place} {elements : List (List Value)}
    (other : p.type.answers name = false) :
    (node p elements).find? name = findInElements? name elements := by
  rw [find?]
  exact if_neg (Bool.eq_false_iff.mp other)

theorem findInMembers?_eq_some {members : List Value} {w : Value} :
    findInMembers? name members = some w ↔ ∃ before v behind, members = before ++ v :: behind ∧
      (∀ u ∈ before, u.find? name = none) ∧ v.find? name = some w := by
  induction members with
  | nil => simp [findInMembers?]
  | cons v rest ih =>
    rw [findInMembers?]
    constructor
    · intro found
      rcases Option.or_eq_some_iff.mp found with here | ⟨absent, later⟩
      · exact ⟨[], v, rest, rfl, by simp, here⟩
      · obtain ⟨before, v', behind, rfl, earlier, here⟩ := ih.mp later
        exact ⟨v :: before, v', behind, rfl, List.forall_mem_cons.mpr ⟨absent, earlier⟩, here⟩
    · rintro ⟨before, v', behind, split, earlier, here⟩
      cases before with
      | nil =>
        cases split
        rw [here, Option.some_or]
      | cons u before =>
        cases split
        obtain ⟨absent, earlier⟩ := List.forall_mem_cons.mp earlier
        rw [absent, Option.none_or]
        exact ih.mpr ⟨before, v', behind, rfl, earlier, here⟩

theorem findInMembers?_eq_none {members : List Value} :
    findInMembers? name members = none ↔ ∀ v ∈ members, v.find? name = none := by
  induction members with
  | nil => simp [findInMembers?]
  | cons v rest ih => rw [findInMembers?, Option.or_eq_none_iff, ih, List.forall_mem_cons]

theorem findInElements?_eq_none {elements : List (List Value)} :
    findInElements? name elements = none ↔
      ∀ element ∈ elements, findInMembers? name element = none := by
  induction elements with
  | nil => simp [findInElements?]
  | cons element rest ih => rw [findInElements?, Option.or_eq_none_iff, ih, List.forall_mem_cons]

theorem mem_of_findInElements? {elements : List (List Value)} {w : Value}
    (found : findInElements? name elements = some w) :
    ∃ element ∈ elements, findInMembers? name element = some w := by
  induction elements with
  | nil => cases found
  | cons element rest ih =>
    rw [findInElements?] at found
    rcases Option.or_eq_some_iff.mp found with here | ⟨-, later⟩
    · exact ⟨element, List.mem_cons_self .., here⟩
    · obtain ⟨other, listed, found⟩ := ih later
      exact ⟨other, List.mem_cons_of_mem _ listed, found⟩

variable {v : Value} (formed : v.WellFormed) (stocked : v.Obeys inhabited)
include formed stocked

theorem find?_ne_none_of_ensures (sure : v.type.ensures name = true) : v.find? name ≠ none := by
  induction formed with
  | @leaf l typed =>
    rw [FieldType.ensures_eq, Bool.or_eq_true, Bool.and_eq_true, beq_iff_eq] at sure
    rcases sure with named | ⟨group, -⟩
    · rw [find?_of_answers named]
      exact Option.some_ne_none _
    · have group : l.place.type.kind = .group := group
      have flat := typed.flat
      rw [group] at flat
      cases flat
  | @node p elements kind places all ih =>
    rw [FieldType.ensures_eq, Bool.or_eq_true, Bool.and_eq_true, beq_iff_eq] at sure
    by_cases named : p.type.answers name = true
    · rw [find?_of_answers named]
      exact Option.some_ne_none _
    obtain ⟨group, sure⟩ := sure.resolve_left named
    obtain ⟨m, child, sure⟩ := List.any_eq_true.mp sure
    cases stocked with
    | node here inside =>
    -- A group has an element, and with it a value of the field that ensures the name.
    obtain ⟨element, rest, rfl⟩ := List.exists_cons_of_ne_nil fun none =>
      here group (List.map_eq_nil_iff.mpr none)
    have first : element ∈ element :: rest := List.mem_cons_self ..
    obtain ⟨index, same⟩ := places element first
    have member : m ∈ element.map type := types_of_places same ▸ child
    obtain ⟨v, listed, rfl⟩ := List.mem_map.mp member
    rw [find?_node (Bool.eq_false_iff.mpr named)]
    exact fun absent => ih element first v listed (inside element first v listed) sure
      (findInMembers?_eq_none.mp (findInElements?_eq_none.mp absent element first) v listed)

omit formed stocked in
theorem leads_of_findInMembers? {members : List Value} (sound : ∀ v ∈ members, v.Sound)
    (each : ∀ v ∈ members, ∀ w, v.find? name = some w → w.type ∈ v.type.leads name) {w : Value}
    (found : findInMembers? name members = some w) :
    w.type ∈ FieldType.leadsOfAll name (members.map type) := by
  obtain ⟨before, u, behind, rfl, absent, found⟩ := findInMembers?_eq_some.mp found
  refine FieldType.mem_leadsOfAll.mpr ⟨before.map type, u.type, behind.map type, by simp, ?_,
    each u (by simp) w found⟩
  refine List.forall_mem_map.mpr fun v earlier => Bool.eq_false_iff.mpr fun sure => ?_
  obtain ⟨formed, stocked⟩ := sound v (by simp [earlier])
  exact find?_ne_none_of_ensures formed stocked sure (absent v earlier)

omit formed stocked in
theorem leads_of_answers {w : Value} (named : v.type.answers name = true)
    (found : v.find? name = some w) : w.type ∈ v.type.leads name := by
  rw [find?_of_answers named] at found
  cases found
  rw [FieldType.leads_of_answers named]
  exact List.mem_singleton_self _

theorem leads_of_find? {w : Value} (found : v.find? name = some w) :
    w.type ∈ v.type.leads name := by
  induction formed generalizing w with
  | @leaf l typed =>
    by_cases named : l.place.type.answers name = true
    · exact leads_of_answers named found
    · rw [find?_leaf (Bool.eq_false_iff.mpr named)] at found
      cases found
  | @node p elements kind places all ih =>
    by_cases named : p.type.answers name = true
    · exact leads_of_answers named found
    have other := Bool.eq_false_iff.mpr named
    rw [find?_node other] at found
    obtain ⟨element, listed, found⟩ := mem_of_findInElements? found
    obtain ⟨index, same⟩ := places element listed
    have stocked := stocked.inside _ listed
    rw [type, place, FieldType.leads_of_isStructure other kind, ← types_of_places same]
    exact leads_of_findInMembers? (fun v inside => ⟨all _ listed v inside, stocked v inside⟩)
      (fun v inside _ found => ih _ listed v inside (stocked v inside) found) found

end Finding

section Changing

variable {α β γ : Type} {name : String} {change : Value → α × Value}

/-- A change is made on the value that is found, and the changed value is found again if it still
has the name. -/
def Tracks (name : String) (change : Value → α × Value) (search : β → Option Value)
    (found : Option Value) (changed : Option (α × β)) : Prop :=
  match found with
  | none => changed = none
  | some w => ∃ b, changed = some ((change w).1, b) ∧
      ((change w).2.type.answers name = true → search b = some (change w).2)

theorem Tracks.within {search : β → Option Value} {search' : γ → Option Value} {wrap : β → γ}
    (same : ∀ b, search' (wrap b) = search b) {found : Option Value} {changed : Option (α × β)}
    (inner : Tracks name change search found changed) :
    Tracks name change search' found (changed.map fun (a, b) => (a, wrap b)) := by
  cases found with
  | none => exact Option.map_eq_none_iff.mpr inner
  | some w =>
    obtain ⟨b, rfl, again⟩ := inner
    exact ⟨wrap b, rfl, fun named => (same b).trans (again named)⟩

theorem Tracks.cons {head : β → Option Value} {search : List β → Option Value}
    (first : ∀ b rest, search (b :: rest) = (head b).or (search rest)) {b : β} {rest : List β}
    {changed : Option (α × β)} {changed' joint : Option (α × List β)}
    (hit : ∀ a b', changed = some (a, b') → joint = some (a, b' :: rest))
    (miss : changed = none → joint = changed'.map fun (a, rest) => (a, b :: rest))
    (here : Tracks name change head (head b) changed)
    (later : Tracks name change search (search rest) changed') :
    Tracks name change search (search (b :: rest)) joint := by
  rw [first]
  cases found : head b with
  | some w =>
    rw [found] at here
    obtain ⟨b', made, again⟩ := here
    exact ⟨b' :: rest, hit _ _ made, fun named => by rw [first, again named, Option.some_or]⟩
  | none =>
    rw [found] at here
    rw [miss here]
    exact later.within fun rest' => by rw [first, found, Option.none_or]

mutual

theorem tracks_modifyNamed? (name : String) (change : Value → α × Value) (v : Value) :
    Tracks name change (find? name) (v.find? name) (v.modifyNamed? name change) := by
  unfold modifyNamed?
  split
  · rename_i named
    rw [find?_of_answers named]
    exact ⟨_, rfl, find?_of_answers⟩
  · rename_i other
    match v with
    | leaf l =>
      rw [find?_leaf (Bool.eq_false_iff.mpr other)]
      rfl
    | node p elements =>
      have search : ∀ elements, (node p elements).find? name = findInElements? name elements :=
        fun _ => find?_node (Bool.eq_false_iff.mpr other)
      rw [search]
      exact (tracks_modifyInElements? name change elements).within search

theorem tracks_modifyInElements? (name : String) (change : Value → α × Value)
    (elements : List (List Value)) : Tracks name change (findInElements? name)
      (findInElements? name elements) (modifyInElements? name change elements) := by
  match elements with
  | [] => rfl
  | element :: rest =>
    exact Tracks.cons (fun _ _ => rfl) (fun a _ made => by rw [modifyInElements?, made])
      (fun none => by rw [modifyInElements?, none])
      (tracks_modifyInMembers? name change element) (tracks_modifyInElements? name change rest)

theorem tracks_modifyInMembers? (name : String) (change : Value → α × Value)
    (members : List Value) : Tracks name change (findInMembers? name)
      (findInMembers? name members) (modifyInMembers? name change members) := by
  match members with
  | [] => rfl
  | v :: rest =>
    exact Tracks.cons (fun _ _ => rfl) (fun a _ made => by rw [modifyInMembers?, made])
      (fun none => by rw [modifyInMembers?, none])
      (tracks_modifyNamed? name change v) (tracks_modifyInMembers? name change rest)

end

end Changing

end Value

namespace Definition

section Lookups

variable {d : Definition} {name : String}

theorem Reached.sound [Libraries] (reached : d.Reached) : ∀ v ∈ d.values, v.Sound := fun v listed =>
  ⟨reached.wellFormed.values v listed,
    (reached.obeys Value.lasting_inhabited Value.grows_inhabited).values v listed⟩

theorem types_values (formed : d.WellFormed) : d.values.map Value.type = d.types := by
  have same := congrArg (List.map Place.type) formed.places
  rw [List.map_map, List.map_map] at same
  exact same.trans (List.map_id _)

theorem leads_of_value? (formed : d.WellFormed) (sound : ∀ v ∈ d.values, v.Sound) {v : Value}
    (found : d.value? name = some v) : v.type ∈ FieldType.leadsOfAll name d.types := by
  rw [← types_values formed]
  exact Value.leads_of_findInMembers? sound
    (fun u listed _ found => Value.leads_of_find? (sound u listed).formed (sound u listed).stocked
      found) found

theorem modifyValue?_eq_some {α : Type} {change : Value → α × Value} {a : α} {d' : Definition}
    (h : d.modifyValue? name change = some (a, d')) :
    ∃ v, d.value? name = some v ∧ (change v).1 = a ∧
      ((change v).2.type.answers name = true → d'.value? name = some (change v).2) := by
  obtain ⟨⟨b, values⟩, changed, same⟩ := Option.map_eq_some_iff.mp h
  cases same
  have tracks := Value.tracks_modifyInMembers? name change d.values
  rw [changed] at tracks
  unfold value?
  cases found : Value.findInMembers? name d.values with
  | none =>
    rw [found] at tracks
    cases tracks
  | some v =>
    rw [found] at tracks
    obtain ⟨values', same, again⟩ := tracks
    cases same
    exact ⟨v, rfl, rfl, again⟩

theorem answers_of_value? (formed : d.WellFormed) (sound : ∀ v ∈ d.values, v.Sound) {v : Value}
    (found : d.value? name = some v) : v.type.answers name = true := by
  obtain ⟨before, t, behind, -, -, inside⟩ :=
    FieldType.mem_leadsOfAll.mp (leads_of_value? formed sound found)
  exact (FieldType.answers_of_mem_leads inside).2

theorem assign_ok [Libraries] {d' : Definition} {s : Scalar} (h : d.assign name s = .ok d') :
    ∃ v v', d.value? name = some v ∧ v.assign s = .ok v' ∧
      (v'.type.answers name = true → d'.value? name = some v') := by
  unfold assign at h
  dsimp only at h
  split at h
  · cases h
  · rename_i changed
    cases h
    obtain ⟨v, found, made, again⟩ := modifyValue?_eq_some changed
    cases assigned : v.assign s with
    | error fault =>
      rw [assigned] at made
      cases made
    | ok v' =>
      rw [assigned] at again
      exact ⟨v, v', found, assigned, again⟩
  · cases h

end Lookups

/-- A name that leads to no field but the one it stands for finds a value of that field only, and an
assignment under the name changes that value. -/
theorem lookups_agree [Libraries] {d : Definition} (reached : d.Reached) {name : String}
    (only : ∀ u ∈ FieldType.leadsOfAll name d.types, d.field name = .ok u) :
    (∀ v, d.value? name = some v → d.field name = .ok v.type) ∧
      (∀ (α : Type) (change : Value → α × Value) (a : α) (d' : Definition),
        d.modifyValue? name change = some (a, d') →
        ∃ v, d.value? name = some v ∧ d.field name = .ok v.type ∧ (change v).1 = a) ∧
      ∀ s d', d.assign name s = .ok d' → ∃ v v', d.value? name = some v ∧
        d.field name = .ok v.type ∧ v.assign s = .ok v' ∧ d'.value? name = some v' := by
  have agree : ∀ v, d.value? name = some v → d.field name = .ok v.type := fun v found =>
    only _ (leads_of_value? reached.wellFormed reached.sound found)
  refine ⟨agree, fun α change a d' changed => ?_, fun s d' assigned => ?_⟩
  · obtain ⟨v, found, made, -⟩ := modifyValue?_eq_some changed
    exact ⟨v, found, agree v found, made⟩
  · obtain ⟨v, v', found, accepted, again⟩ := assign_ok assigned
    have named := answers_of_value? reached.wellFormed reached.sound found
    rw [Value.type, ← Value.place_assign accepted] at named
    exact ⟨v, v', found, agree v found, accepted, again named⟩

namespace Sample

def amount : FieldType :=
  { FieldType.ofKind (.text .short false) "AA" with length := 2, name := "Amount" }

/-- A field in a group, and a field of a periodic group behind it with the same long name. -/
def amounts : List FieldType :=
  [.group "GA" [amount],
    .periodic "PA"
      [{ FieldType.ofKind (.text .short false) "AB" with length := 2, name := "Amount" }]]

def shadowed : List FieldType :=
  [.periodic "P1" [{ FieldType.ofKind (.text .short false) "AA" with length := 2 }],
    { FieldType.ofKind (.text .short false) "BB" with name := "AA" }]

end Sample

theorem sample_lookups_agree : ∃ d d' : Definition, ∃ v', d.Reached ∧
    (∀ u ∈ FieldType.leadsOfAll "Amount" d.types, d.field "Amount" = .ok u) ∧
    (d.value? "AB").map Value.bytes = some [0x20, 0x20] ∧
    d.assign "Amount" (.text ['X', 'Y']) = .ok d' ∧ d.field "Amount" = .ok v'.type ∧
    d'.value? "Amount" = some v' ∧ v'.bytes = [0x58, 0x59] := by
  obtain ⟨d, reached, leads, known, other, d', assigned, bytes⟩ : ∃ d : Definition, d.Reached ∧
      FieldType.leadsOfAll "Amount" d.types = [Sample.amount] ∧
      d.field "Amount" = .ok Sample.amount ∧
      (d.value? "AB").map Value.bytes = some [0x20, 0x20] ∧
      ∃ d', d.assign "Amount" (.text ['X', 'Y']) = .ok d' ∧
        (d'.value? "Amount").map Value.bytes = some [0x58, 0x59] :=
    ⟨_, .changed (.new (rfl : ofTypes .openSystem Sample.amounts = .ok _)) "PA" [] (.reach 1) rfl,
      rfl, rfl, rfl, _, rfl, rfl⟩
  have only : ∀ u ∈ FieldType.leadsOfAll "Amount" d.types, d.field "Amount" = .ok u := by
    rw [leads]
    exact List.forall_mem_singleton.mpr known
  obtain ⟨-, -, assigns⟩ := lookups_agree reached only
  obtain ⟨v, v', found, field, accepted, again⟩ := assigns _ d' assigned
  rw [Value.type, ← Value.place_assign accepted] at field
  rw [again] at bytes
  exact ⟨d, d', v', reached, only, other, assigned, field, again, Option.some.inj bytes⟩

/-- A field of a periodic group without occurrences: the name stands for it, but the values lead to
the field behind it, and an assignment changes that one. -/
theorem empty_group_gives_name_away : ∃ d d' : Definition, ∃ t v, d.Reached ∧
    d.field "AA" = .ok t ∧ t.shortName = "AA" ∧
    d.value? "AA" = some v ∧ v.shortName = "BB" ∧
    d.assign "AA" (.text ['X']) = .ok d' ∧ (d'.value? "BB").map Value.bytes = some [0x58] :=
  ⟨_, _, _, _, .new (rfl : ofTypes .openSystem Sample.shadowed = .ok _), rfl, rfl, rfl, rfl, rfl,
    rfl⟩

end Definition

end RecordCodec
