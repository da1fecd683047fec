import Mathlib.Data.List.Flatten
import RecordCodec.Proofs.Definition.Sites

/-!
What is left of fields when some are asked for: the scalars that are asked for or stand in a
structure that is, in their order, with the groups around them, all under the names that they had.
-/
namespace RecordCodec

namespace FieldType

theorem restrictAll_eq (wanted : List String) (types : List FieldType) :
    restrictAll wanted types = types.filterMap (restrict? wanted) := by
  induction types with
  | nil => rfl
  | cons t rest ih =>
    rw [restrictAll, List.filterMap_cons, ih]
    cases t.restrict? wanted <;> rfl

def holding (t : FieldType) (kept : List FieldType) : FieldType :=
  { t with children := kept }

@[simp]
theorem children_holding (t : FieldType) (kept : List FieldType) :
    (t.holding kept).children = kept :=
  rfl

@[simp]
theorem holding_holding (t : FieldType) (kept kept' : List FieldType) :
    (t.holding kept).holding kept' = t.holding kept' :=
  rfl

section Restrict

variable {wanted : List String} {t : FieldType}

theorem restrict?_named (named : t.shortName ∈ wanted) : t.restrict? wanted = some t := by
  cases t
  exact if_pos (List.contains_iff_mem.mpr named)

theorem restrict?_unnamed (unnamed : t.shortName ∉ wanted) : t.restrict? wanted =
    match t.isGroup, restrictAll wanted t.children with
    | true, kept@(_ :: _) => some (t.holding kept)
    | _, _ => none := by
  match t with
  | ⟨kind, shortName, name, length, fraction, options, flags, charset, part, children, occurrence,
      superEntries⟩ =>
    unfold restrict?
    rw [if_neg (by simpa using unnamed)]
    cases kind <;> first | rfl | (cases restrictAll wanted children <;> rfl)

theorem restrict?_other (unnamed : t.shortName ∉ wanted) (other : t.isGroup = false) :
    t.restrict? wanted = none := by
  rw [restrict?_unnamed unnamed, other]

theorem restrict?_group (unnamed : t.shortName ∉ wanted) (group : t.isGroup = true) :
    t.restrict? wanted =
      if restrictAll wanted t.children = [] then none
      else some (t.holding (restrictAll wanted t.children)) := by
  rw [restrict?_unnamed unnamed, group]
  cases restrictAll wanted t.children <;> rfl

/-- What a restriction leaves of a field is the field if it is named, and else a group of what is
left in it. -/
theorem of_restrict?_some {u : FieldType} (left : t.restrict? wanted = some u) :
    (t.shortName ∈ wanted ∧ u = t) ∨
      (t.shortName ∉ wanted ∧ t.isGroup = true ∧ restrictAll wanted t.children ≠ [] ∧
        u = t.holding (restrictAll wanted t.children)) := by
  by_cases named : t.shortName ∈ wanted
  · rw [restrict?_named named] at left
    cases left
    exact .inl ⟨named, rfl⟩
  · cases group : t.isGroup with
    | false =>
      rw [restrict?_other named group] at left
      cases left
    | true =>
      rw [restrict?_group named group] at left
      split at left
      · cases left
      · rename_i some
        cases left
        exact .inr ⟨named, rfl, some, rfl⟩

end Restrict

theorem restrictAll_eq_flatMap (wanted : List String) (types : List FieldType) :
    restrictAll wanted types = types.flatMap fun t => (t.restrict? wanted).toList := by
  rw [restrictAll_eq, List.filterMap_eq_flatMap_toList]

def isWanted (wanted : List String) (t : FieldType) : Bool :=
  wanted.contains t.shortName

section Kept

variable {wanted : List String}

theorem isWanted_iff {t : FieldType} : t.isWanted wanted = true ↔ t.shortName ∈ wanted :=
  List.contains_iff_mem

/-- What is left of a field has the scalars in it that are asked for, if none of the structures
around it is. -/
theorem scalars_restrict? {t : FieldType} (formed : t.ScalarElements) {around : List FieldType}
    (unasked : ∀ a ∈ around, a.isWanted wanted = false) :
    scalarsOfAll (t.restrict? wanted).toList =
      ((t.sites around).filter (Site.asked (isWanted wanted))).map Site.field := by
  induction t using induct generalizing around with
  | step t ih =>
    obtain ⟨here, inside⟩ := scalarElements_iff.mp formed
    by_cases named : t.shortName ∈ wanted
    · have all : (t.sites around).filter (Site.asked (isWanted wanted)) =
          (t.sites around).filter ((fun u => !u.kind.isStructure) ∘ Site.field) :=
        List.filter_congr fun s listed => by
          simp [Site.asked, covered_of_mem_sites listed (isWanted_iff.mpr named)]
      rw [restrict?_named named, all, ← List.filter_map, map_sites]
      simp [scalarsOfAll, walkAll]
    · have unnamed : ∀ a ∈ t :: around, a.isWanted wanted = false :=
        List.forall_mem_cons.mpr ⟨by simpa [isWanted] using named, unasked⟩
      cases group : t.isGroup with
      | true =>
        have deeper : scalarsOfAll (restrictAll wanted t.children) =
            ((t.sites around).filter (Site.asked (isWanted wanted))).map Site.field := by
          have structure' : ¬Site.asked (isWanted wanted) ⟨t, around⟩ = true := by
            simp [Site.asked, isStructure_of_isGroup group]
          rw [sites_eq, List.filter_cons_of_neg structure', List.filter_flatMap, List.map_flatMap,
            restrictAll_eq_flatMap, scalarsOfAll_flatMap]
          exact List.flatMap_congr fun m child => ih m child (inside m child) unnamed
        rw [restrict?_group named group, ← deeper]
        split
        · rename_i none
          rw [none]
          rfl
        · have hidden : (t.holding (restrictAll wanted t.children)).kind.isStructure = true :=
            isStructure_of_isGroup group
          simp [scalarsOfAll, walk_eq, walkAll_eq, hidden]
      | false =>
        have alone : ∀ s ∈ t.sites around, s.covered (isWanted wanted) = false := by
          rw [sites_eq, List.forall_mem_cons, List.forall_mem_flatMap]
          refine ⟨covered_eq_false unnamed, fun m child => ?_⟩
          obtain ⟨-, -, -, same, bare⟩ := formed.element group child
          rw [sites_eq, bare, List.flatMap_nil, List.forall_mem_singleton]
          exact covered_eq_false (List.forall_mem_cons.mpr
            ⟨by simpa [isWanted, same] using named, unnamed⟩)
        rw [restrict?_other named group, List.filter_eq_nil_iff.mpr fun s listed => by
          simp [Site.asked, alone s listed]]
        rfl

theorem scalars_restrictAll {types : List FieldType} (formed : ∀ t ∈ types, t.ScalarElements) :
    scalarsOfAll (restrictAll wanted types) =
      ((sitesOfAll [] types).filter (Site.asked (isWanted wanted))).map Site.field := by
  rw [restrictAll_eq_flatMap, scalarsOfAll_flatMap, sitesOfAll_eq, List.filter_flatMap,
    List.map_flatMap]
  exact List.flatMap_congr fun t listed =>
    scalars_restrict? (formed t listed) fun a none => by cases none

/-- A group that a restriction leaves without members is asked for, or a structure around it is. -/
theorem covered_of_restrict? {t u : FieldType} (left : t.restrict? wanted = some u)
    {around : List FieldType} {s : Site} (inside : s ∈ u.sites around)
    (group : s.field.isGroup = true) (bare : s.field.children = []) :
    s.covered (isWanted wanted) = true := by
  induction t using induct generalizing u around with
  | step t ih =>
    obtain ⟨named, rfl⟩ | ⟨unnamed, holds, some, rfl⟩ := of_restrict?_some left
    · exact covered_of_mem_sites inside (isWanted_iff.mpr named)
    · rw [sites_eq, List.mem_cons, List.mem_flatMap] at inside
      obtain rfl | ⟨k, kept, inside⟩ := inside
      · exact absurd bare some
      · rw [restrictAll_eq] at kept
        obtain ⟨m, child, left⟩ := List.mem_filterMap.mp kept
        exact ih m child left inside

theorem restrictAll_fixed {types : List FieldType}
    (fixed : ∀ t ∈ types, ∀ u, t.restrict? wanted = some u → u.restrict? wanted = some u) :
    restrictAll wanted (restrictAll wanted types) = restrictAll wanted types := by
  rw [restrictAll_eq wanted types, restrictAll_eq, List.filterMap_filterMap]
  refine List.filterMap_congr fun t listed => ?_
  cases left : t.restrict? wanted with
  | none => rfl
  | some u => exact fixed t listed u left

theorem restrict?_again {t u : FieldType} (left : t.restrict? wanted = some u) :
    u.restrict? wanted = some u := by
  induction t using induct generalizing u with
  | step t ih =>
    obtain ⟨named, rfl⟩ | ⟨unnamed, holds, some, rfl⟩ := of_restrict?_some left
    · exact restrict?_named named
    · have again := restrictAll_fixed fun m child k => ih m child
      rw [restrict?_group (t := t.holding _) unnamed holds,
        children_holding, again, if_neg some, holding_holding]

theorem restrictAll_again (types : List FieldType) :
    restrictAll wanted (restrictAll wanted types) = restrictAll wanted types :=
  restrictAll_fixed fun _ _ _ => restrict?_again

def label (t : FieldType) : String × String :=
  (t.shortName, t.name)

theorem answers_eq_of_label {t u : FieldType} (same : t.label = u.label) (name : String) :
    t.answers name = u.answers name := by
  obtain ⟨short, long⟩ := Prod.mk.inj same
  rw [answers, answers, short, long]

theorem fieldsOfAll_flatMap {α : Type} (as : List α) (f : α → List FieldType) :
    fieldsOfAll (as.flatMap f) = as.flatMap fun a => fieldsOfAll (f a) := by
  simp only [fieldsOfAll_eq, List.flatMap_assoc]

theorem label_heading (t : FieldType) (kept : List FieldType) :
    (t.holding kept).heading.map label = t.heading.map label := by
  unfold heading hasFlag holding
  dsimp only
  split <;> rfl

theorem fieldsOfAll_holding {t : FieldType} (group : t.isGroup = true) (kept : List FieldType) :
    fieldsOfAll [t.holding kept] = (t.holding kept).heading ++ fieldsOfAll kept := by
  rw [fieldsOfAll, fieldsOfAll, List.append_nil]
  exact fields_of_isGroup (t := t.holding kept) group

theorem labels_restrictAll_of {types : List FieldType}
    (each : ∀ t ∈ types, ((fieldsOfAll (t.restrict? wanted).toList).map label).Sublist
      (t.fields.map label)) :
    ((fieldsOfAll (restrictAll wanted types)).map label).Sublist
      ((fieldsOfAll types).map label) := by
  rw [restrictAll_eq_flatMap, fieldsOfAll_flatMap, fieldsOfAll_eq, List.map_flatMap,
    List.map_flatMap]
  exact List.Sublist.flatMap_right _ each

/-- A restriction leaves the fields that names can stand for with their names, in their order. -/
theorem labels_restrict? (t : FieldType) :
    ((fieldsOfAll (t.restrict? wanted).toList).map label).Sublist (t.fields.map label) := by
  induction t using induct with
  | step t ih =>
    cases left : t.restrict? wanted with
    | none => exact List.nil_sublist _
    | some u =>
      obtain ⟨named, rfl⟩ | ⟨unnamed, holds, some, rfl⟩ := of_restrict?_some left
      · simp [fieldsOfAll]
      · rw [Option.toList_some, fieldsOfAll_holding holds, fields_of_isGroup holds, List.map_append,
          List.map_append, label_heading]
        exact (labels_restrictAll_of ih).append_left _

theorem labels_restrictAll (types : List FieldType) :
    ((fieldsOfAll (restrictAll wanted types)).map label).Sublist
      ((fieldsOfAll types).map label) :=
  labels_restrictAll_of fun t _ => labels_restrict? t

theorem find?_eq_none_of_labels {fields fields' : List FieldType}
    (fewer : (fields'.map label).Sublist (fields.map label)) {name : String}
    (unknown : fields.find? (answers name) = none) : fields'.find? (answers name) = none := by
  rw [List.find?_eq_none] at unknown ⊢
  intro u left
  obtain ⟨t, listed, same⟩ := List.mem_map.mp (fewer.subset (List.mem_map_of_mem left))
  rw [← answers_eq_of_label same]
  exact unknown t listed

theorem find?_restrictAll_of {types : List FieldType} {name : String} {u : FieldType}
    (each : ∀ t ∈ types, t.fields.find? (answers name) = some u →
      (fieldsOfAll (t.restrict? wanted).toList).find? (answers name) = some u)
    (found : (fieldsOfAll types).find? (answers name) = some u) :
    (fieldsOfAll (restrictAll wanted types)).find? (answers name) = some u := by
  rw [restrictAll_eq_flatMap, fieldsOfAll_flatMap]
  induction types with
  | nil => cases found
  | cons t rest ih =>
    obtain ⟨here, later⟩ := List.forall_mem_cons.mp each
    rw [fieldsOfAll, List.find?_append] at found
    rw [List.flatMap_cons, List.find?_append]
    cases first : t.fields.find? (answers name) with
    | some v =>
      rw [first, Option.some_or] at found
      cases found
      rw [here first, Option.some_or]
    | none =>
      rw [first, Option.none_or] at found
      rw [find?_eq_none_of_labels (labels_restrict? t) first, Option.none_or, ih later found]

/-- A name that stands for a field that is asked for, stands for it in what a restriction leaves. -/
theorem find?_restrict? {t u : FieldType} (formed : t.ScalarElements) {name : String}
    (found : t.fields.find? (answers name) = some u) (named : u.shortName ∈ wanted) :
    (fieldsOfAll (t.restrict? wanted).toList).find? (answers name) = some u := by
  induction t using induct with
  | step t ih =>
    obtain ⟨-, inside⟩ := scalarElements_iff.mp formed
    by_cases here : t.shortName ∈ wanted
    · rw [restrict?_named here]
      simpa [fieldsOfAll] using found
    · have notHere : ∀ v, t.heading.find? (answers name) = some v → v.shortName ∉ wanted := by
        intro v first
        rw [mem_heading (List.mem_of_find?_eq_some first)]
        exact here
      cases group : t.isGroup with
      | false =>
        rw [formed.fields_eq_heading group] at found
        exact absurd named (notHere u found)
      | true =>
        rw [fields_of_isGroup group, List.find?_append] at found
        cases first : t.heading.find? (answers name) with
        | some v =>
          rw [first, Option.some_or] at found
          cases found
          exact absurd named (notHere _ first)
        | none =>
          rw [first, Option.none_or] at found
          have deeper := find?_restrictAll_of
            (fun m child first => ih m child (inside m child) first) found
          rw [restrict?_group here group]
          split
          · rename_i none
            rw [none] at deeper
            cases deeper
          · rw [Option.toList_some, fieldsOfAll_holding group, List.find?_append,
              find?_eq_none_of_labels (label_heading t _ ▸ List.Sublist.refl _) first]
            exact deeper

theorem find?_restrictAll {types : List FieldType} {u : FieldType}
    (formed : ∀ t ∈ types, t.ScalarElements) {name : String}
    (found : (fieldsOfAll types).find? (answers name) = some u) (named : u.shortName ∈ wanted) :
    (fieldsOfAll (restrictAll wanted types)).find? (answers name) = some u :=
  find?_restrictAll_of (fun t listed first => find?_restrict? (formed t listed) first named) found

theorem Unclaimed.restrictAll {types : List FieldType} (unclaimed : Unclaimed (fieldsOfAll types)) :
    Unclaimed (fieldsOfAll (restrictAll wanted types)) := by
  have of_labels : ∀ fields : List FieldType, Unclaimed fields ↔
      (fields.map label).Pairwise fun l l' => l.1 ≠ l'.1 ∧ l.2 ≠ l'.1 := by
    intro fields
    rw [Unclaimed, List.pairwise_map]
    simp [answers, label]
  rw [of_labels] at unclaimed ⊢
  exact unclaimed.sublist (labels_restrictAll types)

end Kept

end FieldType

end RecordCodec
