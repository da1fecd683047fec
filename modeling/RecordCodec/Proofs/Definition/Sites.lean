import RecordCodec.Proofs.Definition.Declared
import RecordCodec.Proofs.Definition.Names

/-!
The fields of a record where they stand: each with the structures around it. Groups can have any
fields in them, a multiple-value field its element, and no other field has fields in it.
-/
namespace RecordCodec

/-- A field where it stands: in the structures `around` it, the innermost first. -/
structure Site where
  field : FieldType
  around : List FieldType

def Site.covered (named : FieldType → Bool) (s : Site) : Bool :=
  (s.field :: s.around).any named

def Site.asked (named : FieldType → Bool) (s : Site) : Bool :=
  !s.field.kind.isStructure && s.covered named

namespace FieldType

theorem induct {P : FieldType → Prop} (step : ∀ t, (∀ m ∈ t.children, P m) → P t) (t : FieldType) :
    P t :=
  step t fun m _ => induct step m
termination_by t
decreasing_by
  have smaller := List.sizeOf_lt_of_mem ‹m ∈ t.children›
  cases t
  simp only [mk.sizeOf_spec] at smaller ⊢
  omega

theorem walkAll_eq (types : List FieldType) : walkAll types = types.flatMap walk := by
  induction types with
  | nil => rfl
  | cons t rest ih => rw [walkAll, ih, List.flatMap_cons]

theorem walk_eq (t : FieldType) : t.walk = t :: t.children.flatMap walk := by
  rw [← walkAll_eq]
  cases t
  rfl

theorem fields_eq (t : FieldType) : t.fields =
    (if t.hasFlag .multipleElement then [] else [t]) ++
      if t.kind = .superDescriptor then [] else t.children.flatMap fields := by
  rw [← fieldsOfAll_eq]
  cases t
  rfl

mutual

def sites (around : List FieldType) (t : FieldType) : List Site :=
  match t with
  | { children := children, .. } => ⟨t, around⟩ :: sitesOfAll (t :: around) children

def sitesOfAll (around : List FieldType) : List FieldType → List Site
  | [] => []
  | t :: rest => t.sites around ++ sitesOfAll around rest

end

theorem sitesOfAll_eq (around types : List FieldType) :
    sitesOfAll around types = types.flatMap (sites around) := by
  induction types with
  | nil => rfl
  | cons t rest ih => rw [sitesOfAll, ih, List.flatMap_cons]

theorem sites_eq (around : List FieldType) (t : FieldType) :
    t.sites around = ⟨t, around⟩ :: t.children.flatMap (sites (t :: around)) := by
  rw [← sitesOfAll_eq]
  cases t
  rfl

theorem map_sites (t : FieldType) (around : List FieldType) :
    (t.sites around).map Site.field = t.walk := by
  induction t using induct generalizing around with
  | step t ih =>
    rw [sites_eq, walk_eq, List.map_cons, List.map_flatMap]
    exact congrArg (t :: ·) (List.flatMap_congr fun m child => ih m child (t :: around))

theorem sites_append (inner around : List FieldType) (t : FieldType) :
    t.sites (inner ++ around) =
      (t.sites inner).map fun s => ⟨s.field, s.around ++ around⟩ := by
  induction t using induct generalizing inner with
  | step t ih =>
    rw [sites_eq, sites_eq, List.map_cons, List.map_flatMap]
    exact congrArg _ (List.flatMap_congr fun m child => ih m child (t :: inner))

theorem suffix_of_mem_sites {t : FieldType} {around : List FieldType} {s : Site}
    (inside : s ∈ t.sites around) : t :: around <:+ s.field :: s.around := by
  induction t using induct generalizing around with
  | step t ih =>
    rw [sites_eq, List.mem_cons, List.mem_flatMap] at inside
    obtain rfl | ⟨m, child, inside⟩ := inside
    · exact List.suffix_refl _
    · exact (List.suffix_cons m _).trans (ih m child inside)

theorem covered_of_mem_sites {named : FieldType → Bool} {t : FieldType} {around : List FieldType}
    {s : Site} (inside : s ∈ t.sites around) (asked : named t = true) : s.covered named = true := by
  have around := (suffix_of_mem_sites inside).subset
  exact List.any_eq_true.mpr ⟨t, around (List.mem_cons_self ..), asked⟩

theorem covered_eq_false {named : FieldType → Bool} {t : FieldType} {around : List FieldType}
    (unasked : ∀ u ∈ t :: around, named u = false) : (Site.mk t around).covered named = false :=
  List.any_eq_false.mpr fun u listed => by simp [unasked u listed]

/-- The fields of a list that are no structures, at any depth. -/
def scalarsOfAll (types : List FieldType) : List FieldType :=
  (walkAll types).filter fun t => !t.kind.isStructure

def isGroup (t : FieldType) : Bool :=
  t.kind == .group || t.kind == .periodicGroup

theorem isStructure_of_isGroup {t : FieldType} (group : t.isGroup = true) :
    t.kind.isStructure = true := by
  rcases Bool.or_eq_true _ _ ▸ group with same | same <;> rw [beq_iff_eq.mp same] <;> rfl

/-- Whether a field can have another one in it: groups have any, and a multiple-value field has a
scalar that shares its short name. -/
def Holds (t m : FieldType) : Prop :=
  t.isGroup = true ∨ t.kind = .multiple ∧ m.kind.isStructure = false ∧
    m.hasFlag .multipleElement = true ∧ m.shortName = t.shortName

/-- A field as it can be declared with scalars for the elements of its multiple-value fields. -/
def ScalarElements (t : FieldType) : Prop :=
  ∀ u ∈ t.walk, ∀ m ∈ u.children, u.Holds m

section Elements

variable {t m : FieldType}

theorem scalarElements_iff : t.ScalarElements ↔
    (∀ m ∈ t.children, t.Holds m) ∧ ∀ m ∈ t.children, m.ScalarElements := by
  unfold ScalarElements
  rw [walk_eq, List.forall_mem_cons, List.forall_mem_flatMap]

theorem ScalarElements.element (formed : t.ScalarElements) (other : t.isGroup = false)
    (child : m ∈ t.children) : t.kind = .multiple ∧ m.kind.isStructure = false ∧
      m.hasFlag .multipleElement = true ∧ m.shortName = t.shortName ∧ m.children = [] := by
  obtain ⟨here, inside⟩ := scalarElements_iff.mp formed
  obtain group | ⟨multiple, scalar, hidden, same⟩ := here m child
  · rw [other] at group
    cases group
  · refine ⟨multiple, scalar, hidden, same, List.eq_nil_iff_forall_not_mem.mpr fun k deeper => ?_⟩
    obtain group | ⟨kind, -⟩ := (scalarElements_iff.mp (inside m child)).1 k deeper
    · rw [isStructure_of_isGroup group] at scalar
      cases scalar
    · rw [kind] at scalar
      cases scalar

end Elements

section Constructors

variable {t : FieldType} {children : List FieldType}

theorem ScalarElements.bare (formed : t.ScalarElements) (scalar : t.kind.isStructure = false) :
    t.children = [] := by
  refine List.eq_nil_iff_forall_not_mem.mpr fun m child => ?_
  have other : t.isGroup = false := by
    rw [Bool.eq_false_iff]
    intro group
    rw [isStructure_of_isGroup group] at scalar
    cases scalar
  rw [(formed.element other child).1] at scalar
  cases scalar

/-- Whether elements are scalars, the kind, the short name and the fields inside decide. -/
theorem ScalarElements.revised {u : FieldType} (formed : t.ScalarElements)
    (kind : u.kind = t.kind) (shortName : u.shortName = t.shortName)
    (children : u.children = t.children) : u.ScalarElements := by
  obtain ⟨here, inside⟩ := scalarElements_iff.mp formed
  refine scalarElements_iff.mpr ⟨fun m child => ?_, children ▸ inside⟩
  have holds := here m (children ▸ child)
  rwa [Holds, isGroup, ← kind, ← shortName] at holds

theorem scalarElements_of_bare (bare : t.children = []) : t.ScalarElements :=
  scalarElements_iff.mpr (by simp [bare])

theorem scalarElements_group (shortName : String) (formed : ∀ m ∈ children, m.ScalarElements) :
    (group shortName children).ScalarElements :=
  scalarElements_iff.mpr ⟨fun _ _ => .inl rfl, formed⟩

theorem addFlagDeepAll_eq (f : FieldFlag) (types : List FieldType) :
    addFlagDeepAll f types = types.map (addFlagDeep f) := by
  induction types with
  | nil => rfl
  | cons t rest ih => rw [addFlagDeepAll, ih, List.map_cons]

theorem addFlagDeep_eq (f : FieldFlag) (t : FieldType) : t.addFlagDeep f =
    { t with flags := t.flags.insert f, children := t.children.map (addFlagDeep f) } := by
  rw [← addFlagDeepAll_eq]
  cases t
  rfl

theorem Holds.addFlagDeep {m : FieldType} (holds : t.Holds m) (f : FieldFlag) :
    (t.addFlagDeep f).Holds (m.addFlagDeep f) := by
  rw [addFlagDeep_eq, addFlagDeep_eq]
  obtain group | ⟨multiple, scalar, hidden, same⟩ := holds
  · exact .inl group
  · exact .inr ⟨multiple, scalar, FlagSet.contains_insert hidden, same⟩

theorem scalarElements_addFlagDeep (f : FieldFlag) (formed : t.ScalarElements) :
    (t.addFlagDeep f).ScalarElements := by
  induction t using induct with
  | step t ih =>
    obtain ⟨here, inside⟩ := scalarElements_iff.mp formed
    rw [scalarElements_iff]
    have inner : (t.addFlagDeep f).children = t.children.map (addFlagDeep f) := by
      rw [addFlagDeep_eq]
    rw [inner, List.forall_mem_map, List.forall_mem_map]
    exact ⟨fun m child => (here m child).addFlagDeep f, fun m child => ih m child (inside m child)⟩

theorem scalarElements_periodic (shortName : String) (formed : ∀ m ∈ children, m.ScalarElements) :
    (periodic shortName children).ScalarElements := by
  refine scalarElements_iff.mpr ⟨fun _ _ => .inl rfl, ?_⟩
  change ∀ m ∈ addFlagDeepAll .periodic children, m.ScalarElements
  rw [addFlagDeepAll_eq, List.forall_mem_map]
  exact fun m child => scalarElements_addFlagDeep .periodic (formed m child)

theorem scalarElements_multiple (scalar : t.kind.isStructure = false) (bare : t.children = []) :
    (multiple t).ScalarElements := by
  refine scalarElements_iff.mpr ⟨List.forall_mem_singleton.mpr ?_, List.forall_mem_singleton.mpr ?_⟩
  · exact .inr ⟨rfl, scalar, List.contains_iff_mem.mpr (List.mem_insert_self ..), rfl⟩
  · exact scalarElements_of_bare bare

end Constructors

theorem scalarsOfAll_flatMap {α : Type} (as : List α) (f : α → List FieldType) :
    scalarsOfAll (as.flatMap f) = as.flatMap fun a => scalarsOfAll (f a) := by
  simp only [scalarsOfAll, walkAll_eq, List.flatMap_assoc, List.filter_flatMap]

def heading (t : FieldType) : List FieldType :=
  if t.hasFlag .multipleElement then [] else [t]

theorem mem_heading {t u : FieldType} (listed : u ∈ t.heading) : u = t := by
  unfold heading at listed
  split at listed
  · cases listed
  · exact List.mem_singleton.mp listed

theorem fields_of_isGroup {t : FieldType} (group : t.isGroup = true) :
    t.fields = t.heading ++ fieldsOfAll t.children := by
  have plain : t.kind ≠ .superDescriptor := fun same => by simp [isGroup, same] at group
  rw [fields_eq, if_neg plain, fieldsOfAll_eq]
  rfl

theorem mem_walk_of_mem_fields {t u : FieldType} (listed : u ∈ t.fields) : u ∈ t.walk := by
  induction t using induct with
  | step t ih =>
    rw [fields_eq, List.mem_append] at listed
    rw [walk_eq, List.mem_cons, List.mem_flatMap]
    rcases listed with here | inside
    · exact .inl (mem_heading here)
    · split at inside
      · cases inside
      · obtain ⟨m, child, inside⟩ := List.mem_flatMap.mp inside
        exact .inr ⟨m, child, ih m child inside⟩

theorem ScalarElements.fields_eq_heading {t : FieldType} (formed : t.ScalarElements)
    (other : t.isGroup = false) : t.fields = t.heading := by
  have hidden : t.children.flatMap fields = [] := by
    refine List.flatMap_eq_nil_iff.mpr fun m child => ?_
    obtain ⟨-, -, hidden, -, bare⟩ := formed.element other child
    simp [fields_eq, hidden, bare]
  rw [fields_eq, hidden, ite_self, List.append_nil]
  rfl

end FieldType

end RecordCodec
