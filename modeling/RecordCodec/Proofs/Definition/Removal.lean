import RecordCodec.Libraries.Standard
import RecordCodec.Proofs.Definition.Sites
import RecordCodec.Proofs.Value.Stored

/-!
Fields that are to be removed from stores. At the top level a store leaves them out; inside of a
structure it leaves out read-only fields and no others. Where each flagged field is left out for one
of these reasons, a store is that of the values without the flagged ones.
-/
namespace RecordCodec

namespace FieldType

/-- A field in which everything that is to be removed is read-only or stands in a read-only
structure. -/
def Cleared (t : FieldType) : Prop :=
  ∀ s ∈ t.sites [], s.covered isReadOnly = false → s.field.hasFlag .toBeRemoved = false

instance (t : FieldType) : Decidable t.Cleared :=
  inferInstanceAs (Decidable (∀ s ∈ t.sites [], _))

variable {t m : FieldType}

theorem Cleared.here (cleared : t.Cleared) (written : t.isReadOnly = false) :
    t.hasFlag .toBeRemoved = false := by
  refine cleared ⟨t, []⟩ ?_ (covered_eq_false (List.forall_mem_singleton.mpr written))
  rw [sites_eq]
  exact List.mem_cons_self ..

theorem Cleared.child (cleared : t.Cleared) (written : t.isReadOnly = false)
    (child : m ∈ t.children) : m.Cleared := by
  intro s inside uncovered
  refine cleared ⟨s.field, s.around ++ [t]⟩ ?_ ?_
  · rw [sites_eq, List.mem_cons, List.mem_flatMap]
    refine .inr ⟨m, child, ?_⟩
    rw [← List.nil_append [t], sites_append]
    exact List.mem_map_of_mem inside
  · unfold Site.covered at uncovered ⊢
    rw [← List.cons_append, List.any_append, uncovered, Bool.false_or, List.any_cons, written]
    rfl

end FieldType

namespace Value

mutual

def remaining : Value → Value
  | leaf l => leaf l
  | node p elements => node p (remainingElements elements)

def remainingElements : List (List Value) → List (List Value)
  | [] => []
  | element :: rest => remainingMembers element :: remainingElements rest

def remainingMembers : List Value → List Value
  | [] => []
  | v :: rest =>
    if v.type.hasFlag .toBeRemoved then remainingMembers rest
    else v.remaining :: remainingMembers rest

end

@[simp] theorem type_remaining (v : Value) : v.remaining.type = v.type := by
  cases v <;> rfl

mutual

theorem kept_remaining (v : Value) (kept : v.type.hasFlag .toBeRemoved = false) :
    ∀ w ∈ v.remaining.walk, w.type.hasFlag .toBeRemoved = false := by
  match v with
  | leaf l => exact List.forall_mem_singleton.mpr kept
  | node p elements => exact List.forall_mem_cons.mpr ⟨kept, kept_remainingElements elements⟩

theorem kept_remainingElements (elements : List (List Value)) :
    ∀ w ∈ walkElements (remainingElements elements), w.type.hasFlag .toBeRemoved = false := by
  match elements with
  | [] => exact fun w none => by cases none
  | element :: rest =>
    exact List.forall_mem_append.mpr ⟨kept_remainingMembers element, kept_remainingElements rest⟩

theorem kept_remainingMembers (members : List Value) :
    ∀ w ∈ walkMembers (remainingMembers members), w.type.hasFlag .toBeRemoved = false := by
  match members with
  | [] => exact fun w none => by cases none
  | v :: rest =>
    rw [remainingMembers]
    split
    · exact kept_remainingMembers rest
    · rename_i kept
      exact List.forall_mem_append.mpr
        ⟨kept_remaining v (Bool.eq_false_iff.mpr kept), kept_remainingMembers rest⟩

end

/-- The removal of a value takes none of the fields away that a store writes. -/
def Unmissed (v : Value) : Prop :=
  v.type.hasFlag .toBeRemoved = false ∧
    ∀ repeated, v.remaining.storedFields repeated = v.storedFields repeated

theorem storedInMembers_remaining {members : List Value}
    (each : ∀ v ∈ members, v.type.isReadOnly = false → v.Unmissed) (repeated : Bool) :
    storedInMembers repeated (remainingMembers members) = storedInMembers repeated members := by
  induction members with
  | nil => rfl
  | cons v rest ih =>
    obtain ⟨here, later⟩ := List.forall_mem_cons.mp each
    rw [remainingMembers, storedInMembers]
    cases readOnly : v.type.isReadOnly with
    | true =>
      split
      · exact ih later
      · rw [storedInMembers, type_remaining, readOnly]
        exact ih later
    | false =>
      obtain ⟨kept, same⟩ := here readOnly
      rw [kept, if_neg Bool.false_ne_true, storedInMembers, type_remaining, readOnly, same,
        ih later]

theorem storedInElements_remaining {elements : List (List Value)}
    (each : ∀ element ∈ elements, ∀ v ∈ element, v.type.isReadOnly = false → v.Unmissed)
    (repeated : Bool) : storedInElements repeated (remainingElements elements) =
      storedInElements repeated elements := by
  induction elements with
  | nil => rfl
  | cons element rest ih =>
    obtain ⟨here, later⟩ := List.forall_mem_cons.mp each
    rw [remainingElements, storedInElements, storedInElements, storedInMembers_remaining here,
      ih later]

theorem unmissed_of_cleared {v : Value} (formed : v.WellFormed) (cleared : v.type.Cleared)
    (written : v.type.isReadOnly = false) : v.Unmissed := by
  refine ⟨cleared.here written, ?_⟩
  induction formed with
  | leaf typed => exact fun repeated => rfl
  | @node p elements kind places all ih =>
    have formed : (Value.node p elements).WellFormed := .node kind places all
    refine fun repeated => storedInElements_remaining (fun element listed v inside readOnly => ?_) _
    have cleared : v.type.Cleared := cleared.child written (formed.member listed inside).2
    exact ⟨cleared.here readOnly, ih element listed v inside cleared readOnly⟩

end Value

namespace Definition

def remaining (d : Definition) : Definition :=
  { d with values := Value.remainingMembers d.values }

theorem map_remaining {vs : List Value}
    (each : ∀ v ∈ vs, v.type.isReadOnly = false → v.type.hasFlag .toBeRemoved = false →
      v.Unmissed) :
    ((Value.remainingMembers vs).filter fun v =>
      !v.type.isReadOnly && !v.type.hasFlag .toBeRemoved).map (Value.storedFields false) =
    (vs.filter fun v =>
      !v.type.isReadOnly && !v.type.hasFlag .toBeRemoved).map (Value.storedFields false) := by
  -- At the top level both lists leave out the flagged values: only what is in the others matters.
  induction vs with
  | nil => rfl
  | cons v rest ih =>
    obtain ⟨here, later⟩ := List.forall_mem_cons.mp each
    rw [Value.remainingMembers]
    cases flagged : v.type.hasFlag .toBeRemoved with
    | true => simpa [flagged] using ih later
    | false =>
      cases readOnly : v.type.isReadOnly with
      | true => simpa [flagged, readOnly] using ih later
      | false =>
        have same := (here readOnly flagged).2 false
        simpa [flagged, readOnly, same] using ih later

/-- What a store writes of each value is what it writes of the values that are to stay. -/
theorem storedFields_remaining {d : Definition} (formed : d.WellFormed)
    (cleared : ∀ t ∈ d.types, t.hasFlag .toBeRemoved = true ∨ t.Cleared) {r : Request}
    (writes : r.store = true) :
    (d.remaining.values.filter (takesPart r)).map (Value.storedFields false) =
      (d.values.filter (takesPart r)).map (Value.storedFields false) := by
  rw [takesPart_store writes]
  refine map_remaining fun v listed readOnly kept => ?_
  obtain ⟨t, field, place⟩ := formed.top listed
  have same : v.type = t := congrArg Place.type place
  have cleared := (cleared t field).resolve_left (by simp [← same, kept])
  exact Value.unmissed_of_cleared (formed.values v listed) (same ▸ cleared) readOnly

/-- Where each field to be removed is a top-level one, in a top-level one, read-only or in a
read-only structure, every call of a store describes and writes exactly what it does without the
values of these fields. -/
theorem removed_fields_stay [Libraries] {d : Definition} (reached : d.Reached)
    (cleared : ∀ t ∈ d.types, t.hasFlag .toBeRemoved = true ∨ t.Cleared) {r : Request}
    (writes : r.store = true) :
    d.format r = d.remaining.format r ∧ d.store r = d.remaining.store r ∧
      ∀ v ∈ Value.walkMembers d.remaining.values, v.type.hasFlag .toBeRemoved = false := by
  have fields := storedFields_remaining reached.wellFormed cleared writes
  have tokens : (d.remaining.values.filter (takesPart r)).map (Value.tokens r) =
      (d.values.filter (takesPart r)).map (Value.tokens r) := by
    rw [map_tokens writes, map_tokens writes, fields]
  refine ⟨?_, ?_, Value.kept_remainingMembers d.values⟩
  · rw [format, format, Definition.tokens, Definition.tokens, List.flatMap, List.flatMap, tokens]
  · have same : d.remaining.storedFields = d.storedFields := by
      rw [takesPart_store writes] at fields
      exact congrArg List.flatten fields
    rw [store_eq writes, store_eq writes, same]
    rfl

namespace Sample

def flagged (shortName : String) : FieldType :=
  { (FieldType.ofKind (.text .short false) shortName).withFlag .toBeRemoved with length := 2 }

/-- A super-descriptor and a field in a group, a flagged periodic group, and a read-only group with
a flagged field in it. -/
def clearedTypes : List FieldType :=
  [.group "GA" [.superDescriptor "S1" [⟨"AA", 1, 1⟩], .ofKind (.binary .two false) "AA"],
    (FieldType.periodic "PA" [flagged "AB"]).withFlag .toBeRemoved,
    .ofKind .unpacked "AC",
    (FieldType.group "GR" [flagged "AD"]).withFlag .readOnly]

def unclearedTypes : List FieldType :=
  [.group "AB" [flagged "AC", .ofKind (.text .short false) "AD"]]

end Sample

theorem sample_removed_fields_stay : ∃ d : Definition, d.Reached ∧
    (∀ t ∈ d.types, t.hasFlag .toBeRemoved = true ∨ t.Cleared) ∧
    d.format (.ofCall true 0) = ("AA,2,B,AC,1,U.", 3) ∧
    d.store (.ofCall true 0) = .ok (.whole [0, 7, 0x30]) ∧
    d.remaining.store (.ofCall true 0) = .ok (.whole [0, 7, 0x30]) ∧
    Value.walkMembers d.remaining.values ≠ [] ∧
    ∀ v ∈ Value.walkMembers d.remaining.values, v.type.hasFlag .toBeRemoved = false := by
  obtain ⟨d, reached, cleared, format, store, left⟩ : ∃ d : Definition, d.Reached ∧
      (∀ t ∈ d.types, t.hasFlag .toBeRemoved = true ∨ t.Cleared) ∧
      d.format (.ofCall true 0) = ("AA,2,B,AC,1,U.", 3) ∧
      d.store (.ofCall true 0) = .ok (.whole [0, 7, 0x30]) ∧
      Value.walkMembers d.remaining.values ≠ [] :=
    ⟨_, .changed (.assigned (.new (rfl : ofTypes .openSystem Sample.clearedTypes = .ok _)) "AA"
      (.int 7) rfl) "PA" [] (.reach 1) rfl, by decide, by decide +kernel, rfl, List.cons_ne_nil _ _⟩
  obtain ⟨-, same, kept⟩ := removed_fields_stay (r := .ofCall true 0) reached cleared rfl
  exact ⟨d, reached, cleared, format, store, same ▸ store, left, kept⟩

theorem nested_field_not_removed : ∃ d : Definition, d.Reached ∧
    d.types = Sample.unclearedTypes ∧
    d.format (.ofCall true 0) = ("AC,2,A,AD,1,A.", 3) ∧
    d.store (.ofCall true 0) = .ok (.whole [0x20, 0x20, 0x20]) ∧
    d.remaining.format (.ofCall true 0) = ("AD,1,A.", 1) ∧
    d.remaining.store (.ofCall true 0) = .ok (.whole [0x20]) :=
  ⟨_, .new (rfl : ofTypes .openSystem Sample.unclearedTypes = .ok _), rfl, by decide +kernel, rfl,
    by decide +kernel, rfl⟩

end Definition

end RecordCodec
