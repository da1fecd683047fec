import Mathlib.Data.List.Perm.Lattice
import RecordCodec.Proofs.Definition.Reached

/-!
The names of a definition. A name stands for the first field that has it as short or long name, and
a list of fields is accepted when no field comes behind one that has its short name already, be it
as a short or as a long name. Long names aside, that is when short names are distinct.
-/
namespace RecordCodec

namespace FieldType

mutual

/-- The fields that names can stand for, each before those in it. The element of a multiple-value
field shares its name with the field and is left out; a super-descriptor has no fields in it. -/
def fields (t : FieldType) : List FieldType :=
  match t with
  | { kind := kind, children := children, .. } =>
    (if t.hasFlag .multipleElement then [] else [t]) ++
      if kind = .superDescriptor then [] else fieldsOfAll children

def fieldsOfAll : List FieldType → List FieldType
  | [] => []
  | t :: rest => t.fields ++ fieldsOfAll rest

end

def answers (name : String) (t : FieldType) : Bool :=
  t.shortName == name || t.name == name

theorem answers_iff {name : String} {t : FieldType} :
    t.answers name = true ↔ t.shortName = name ∨ t.name = name := by
  simp [answers]

theorem answers_shortName (t : FieldType) : t.answers t.shortName = true :=
  answers_iff.mpr (.inl rfl)

theorem fieldsOfAll_eq (types : List FieldType) : fieldsOfAll types = types.flatMap fields := by
  induction types with
  | nil => rfl
  | cons t rest ih => rw [fieldsOfAll, ih, List.flatMap_cons]

theorem mem_fieldsOfAll {types : List FieldType} {u : FieldType} :
    u ∈ fieldsOfAll types ↔ ∃ t ∈ types, u ∈ t.fields := by
  rw [fieldsOfAll_eq, List.mem_flatMap]

mutual

theorem counted_fields (t : FieldType) : ∀ u ∈ t.fields, u.hasFlag .multipleElement = false := by
  match t with
  | ⟨kind, shortName, name, length, fraction, options, flags, charset, part, children, occurrence,
      superEntries⟩ =>
    intro u listed
    rcases List.mem_append.mp listed with here | inside
    · split at here
      · cases here
      · rename_i counted
        cases List.mem_singleton.mp here
        exact Bool.eq_false_iff.mpr counted
    · split at inside
      · cases inside
      · exact counted_fieldsOfAll children u inside

theorem counted_fieldsOfAll (types : List FieldType) :
    ∀ u ∈ fieldsOfAll types, u.hasFlag .multipleElement = false := by
  match types with
  | [] => exact fun u none => by cases none
  | t :: rest => exact List.forall_mem_append.mpr ⟨counted_fields t, counted_fieldsOfAll rest⟩

end

/-- No field comes behind one that has its short name already. -/
def Unclaimed (fields : List FieldType) : Prop :=
  fields.Pairwise fun t u => t.answers u.shortName = false

def shortNamesOfAll (types : List FieldType) : List String :=
  (fieldsOfAll types).map shortName

def LongNamesApart (types : List FieldType) : Prop :=
  ∀ t ∈ fieldsOfAll types, ∀ u ∈ fieldsOfAll types, t.name = u.shortName →
    t.shortName = u.shortName

instance (types : List FieldType) : Decidable (LongNamesApart types) :=
  inferInstanceAs (Decidable (∀ t ∈ fieldsOfAll types, ∀ u ∈ fieldsOfAll types,
    t.name = u.shortName → t.shortName = u.shortName))

theorem Unclaimed.nodup {fields : List FieldType} (unclaimed : Unclaimed fields) :
    (fields.map shortName).Nodup := by
  rw [List.nodup_iff_pairwise_ne, List.pairwise_map]
  refine unclaimed.imp fun {t u} free same => ?_
  rw [answers_iff.mpr (.inl same)] at free
  cases free

theorem LongNamesApart.unclaimed_iff {types : List FieldType} (apart : LongNamesApart types) :
    Unclaimed (fieldsOfAll types) ↔ (shortNamesOfAll types).Nodup := by
  refine ⟨Unclaimed.nodup, fun distinct => ?_⟩
  rw [shortNamesOfAll, List.nodup_iff_pairwise_ne, List.pairwise_map] at distinct
  refine distinct.imp_of_mem fun {t u} ht hu differ => ?_
  rw [Bool.eq_false_iff]
  intro clash
  rcases answers_iff.mp clash with short | long
  · exact differ short
  · exact differ (apart t ht u hu long)

theorem fieldsOfAll_perm {types types' : List FieldType} (same : types.Perm types') :
    (fieldsOfAll types).Perm (fieldsOfAll types') := by
  rw [fieldsOfAll_eq, fieldsOfAll_eq]
  exact same.flatMap_right fields

end FieldType

namespace NameIndex

def Lists (index : NameIndex) (fields : List FieldType) : Prop :=
  ∀ name, index.lookup name = fields.find? (FieldType.answers name)

theorem lists_nil : Lists [] [] :=
  fun _ => rfl

theorem add_hidden (index : NameIndex) {t : FieldType}
    (hidden : t.hasFlag .multipleElement = true) : index.add t = .ok index :=
  if_pos hidden

theorem foldlM_add_self (index : NameIndex) (t : FieldType) :
    (if t.hasFlag .multipleElement = true then [] else [t]).foldlM add index = index.add t := by
  split
  · rename_i hidden
    rw [add_hidden index hidden]
    rfl
  · rw [List.foldlM_cons]
    exact bind_pure _

mutual

theorem addDeep_eq (index : NameIndex) (t : FieldType) :
    addDeep index t = t.fields.foldlM add index := by
  match t with
  | ⟨kind, shortName, name, length, fraction, options, flags, charset, part, children, occurrence,
      superEntries⟩ =>
    rw [addDeep, FieldType.fields, List.foldlM_append, foldlM_add_self]
    congr 1
    funext index'
    split
    · rfl
    · exact addAll_eq index' children

theorem addAll_eq (index : NameIndex) (types : List FieldType) :
    addAll index types = (FieldType.fieldsOfAll types).foldlM add index := by
  match types with
  | [] => rfl
  | t :: rest =>
    rw [addAll, FieldType.fieldsOfAll, List.foldlM_append, addDeep_eq index t]
    congr 1
    funext index'
    exact addAll_eq index' rest

end

section Adding

variable {index : NameIndex} {before : List FieldType} (lists : index.Lists before)
include lists

theorem add_free {t : FieldType} (counted : t.hasFlag .multipleElement = false)
    (free : ∀ u ∈ before, u.answers t.shortName = false) :
    ∃ index', index.add t = .ok index' ∧ index'.Lists (before ++ [t]) := by
  have unknown : before.find? (FieldType.answers t.shortName) = none :=
    List.find?_eq_none.mpr fun u listed => by simp [free u listed]
  have absent : index.lookup t.shortName = none := (lists _).trans unknown
  rw [add, if_neg (by simp [counted]), if_neg (by simp [absent])]
  dsimp only
  have entry : ∀ (key : String) (rest : NameIndex) (name : String),
      List.lookup name ((key, t) :: rest) = if name = key then some t else rest.lookup name := by
    intro key rest name
    rw [List.lookup_cons]
    by_cases same : name = key
    · simp [same]
    · rw [if_neg same, beq_eq_false_iff_ne.mpr same]
  have last : ∀ name, (before ++ [t]).find? (FieldType.answers name) =
      (index.lookup name).or (if t.answers name then some t else none) := by
    intro name
    rw [List.find?_append, lists, List.find?_singleton]
  have other : ∀ {name}, name ≠ t.shortName → name ≠ t.name → t.answers name = false := by
    intro name short long
    simp [FieldType.answers, Ne.symm short, Ne.symm long]
  split
  · rename_i taken
    -- An earlier field has the long name and keeps it; `t` is entered under its short name only.
    refine ⟨_, rfl, fun name => ?_⟩
    rw [last, entry]
    by_cases short : name = t.shortName
    · rw [if_pos short, short, absent, if_pos t.answers_shortName, Option.none_or]
    · rw [if_neg short]
      by_cases long : name = t.name
      · rw [entry, if_neg (long ▸ short)] at taken
        obtain ⟨u, known⟩ := Option.isSome_iff_exists.mp taken
        rw [long, known, Option.some_or]
      · simp [other short long]
  · rename_i untaken
    have fresh : t.name ≠ t.shortName ∧ index.lookup t.name = none := by
      rw [entry] at untaken
      split at untaken
      · simp at untaken
      · rename_i differ
        exact ⟨differ, Option.not_isSome_iff_eq_none.mp untaken⟩
    refine ⟨_, rfl, fun name => ?_⟩
    rw [last, entry, entry]
    by_cases long : name = t.name
    · rw [if_pos long, long, fresh.2, if_pos (FieldType.answers_iff.mpr (.inr rfl)), Option.none_or]
    · rw [if_neg long]
      by_cases short : name = t.shortName
      · rw [if_pos short, short, absent, if_pos t.answers_shortName, Option.none_or]
      · simp [if_neg short, other short long]

theorem add_claimed {t : FieldType} (counted : t.hasFlag .multipleElement = false)
    (claimed : ∃ u ∈ before, u.answers t.shortName = true) :
    index.add t = .error (.duplicateField t.shortName) := by
  have found : (before.find? (FieldType.answers t.shortName)).isSome = true :=
    List.find?_isSome.mpr claimed
  rw [add, if_neg (by simp [counted]), if_pos (by rw [lists, found])]

end Adding

/-- What fields that are added one by one leave behind: no one of them came behind a field that has
its short name already. -/
theorem addEach_ok {index index' : NameIndex} {before added : List FieldType}
    (lists : index.Lists before) (counted : ∀ t ∈ added, t.hasFlag .multipleElement = false)
    (h : added.foldlM add index = .ok index') :
    index'.Lists (before ++ added) ∧ FieldType.Unclaimed added ∧
      ∀ t ∈ before, ∀ u ∈ added, t.answers u.shortName = false := by
  induction added generalizing index before with
  | nil =>
    cases h
    exact ⟨by simpa using lists, .nil, fun _ _ u none => by cases none⟩
  | cons t rest ih =>
    obtain ⟨here, later⟩ := List.forall_mem_cons.mp counted
    rw [List.foldlM_cons] at h
    obtain ⟨index₁, entered, h⟩ := Outcome.bind_ok.mp h
    have free : ∀ u ∈ before, u.answers t.shortName = false := by
      intro u listed
      rw [Bool.eq_false_iff]
      intro clash
      rw [add_claimed lists here ⟨u, listed, clash⟩] at entered
      cases entered
    obtain ⟨index₂, same, lists₁⟩ := add_free lists here free
    rw [same] at entered
    cases entered
    obtain ⟨lists', unclaimed, apart⟩ := ih lists₁ later h
    obtain ⟨earlier, self⟩ := List.forall_mem_append.mp apart
    refine ⟨by simpa using lists', ?_, fun u listed => ?_⟩
    · exact List.pairwise_cons.mpr ⟨List.forall_mem_singleton.mp self, unclaimed⟩
    · exact List.forall_mem_cons.mpr ⟨free u listed, earlier u listed⟩

theorem addEach_error {index : NameIndex} {before added : List FieldType} {fault : FieldFault}
    (lists : index.Lists before) (counted : ∀ t ∈ added, t.hasFlag .multipleElement = false)
    (h : added.foldlM add index = .error fault) :
    ∃ front u behind, added = front ++ u :: behind ∧ fault = .duplicateField u.shortName ∧
      ∃ t ∈ before ++ front, t.answers u.shortName = true := by
  induction added generalizing index before with
  | nil => cases h
  | cons t rest ih =>
    obtain ⟨here, later⟩ := List.forall_mem_cons.mp counted
    rw [List.foldlM_cons] at h
    by_cases claimed : ∃ u ∈ before, u.answers t.shortName = true
    · rw [add_claimed lists here claimed] at h
      cases h
      exact ⟨[], t, rest, rfl, rfl, by simpa using claimed⟩
    · obtain ⟨index₁, entered, lists₁⟩ := add_free lists here fun u listed =>
        Bool.eq_false_iff.mpr fun clash => claimed ⟨u, listed, clash⟩
      rw [entered] at h
      obtain ⟨front, u, behind, rfl, same, clash⟩ := ih lists₁ later h
      exact ⟨t :: front, u, behind, rfl, same, by simpa using clash⟩

section Types

variable {types : List FieldType}

theorem ofTypes_eq : ofTypes types = (FieldType.fieldsOfAll types).foldlM add [] :=
  addAll_eq [] types

theorem lookup_ofTypes {index : NameIndex} (h : ofTypes types = .ok index) (name : String) :
    index.lookup name = (FieldType.fieldsOfAll types).find? (FieldType.answers name) :=
  (addEach_ok lists_nil (FieldType.counted_fieldsOfAll types) (ofTypes_eq ▸ h)).1 name

theorem unclaimed_of_ofTypes {index : NameIndex} (h : ofTypes types = .ok index) :
    FieldType.Unclaimed (FieldType.fieldsOfAll types) :=
  (addEach_ok lists_nil (FieldType.counted_fieldsOfAll types) (ofTypes_eq ▸ h)).2.1

theorem ofTypes_error {fault : FieldFault} (h : ofTypes types = .error fault) :
    ∃ front u behind, FieldType.fieldsOfAll types = front ++ u :: behind ∧
      fault = .duplicateField u.shortName ∧ ∃ t ∈ front, t.answers u.shortName = true :=
  addEach_error lists_nil (FieldType.counted_fieldsOfAll types) (ofTypes_eq ▸ h)

/-- Fields have an index exactly when no one of them comes behind one that has its short name. -/
theorem exists_ofTypes_iff : (∃ index, ofTypes types = .ok index) ↔
    FieldType.Unclaimed (FieldType.fieldsOfAll types) := by
  constructor
  · rintro ⟨index, h⟩
    exact unclaimed_of_ofTypes h
  · intro unclaimed
    cases h : ofTypes types with
    | ok index => exact ⟨index, rfl⟩
    | error fault =>
      obtain ⟨front, u, behind, split, -, t, earlier, clash⟩ := ofTypes_error h
      rw [FieldType.Unclaimed, split, List.pairwise_append] at unclaimed
      have free := unclaimed.2.2 t earlier u (List.mem_cons_self ..)
      rw [clash] at free
      cases free

end Types

end NameIndex

namespace Definition

theorem exists_ofTypes_iff {platform : Platform} {types : List FieldType} :
    (∃ d, ofTypes platform types = .ok d) ↔
      FieldType.Unclaimed (FieldType.fieldsOfAll types) := by
  rw [← NameIndex.exists_ofTypes_iff]
  constructor
  · rintro ⟨d, h⟩
    obtain ⟨index, listed, -⟩ := Outcome.bind_ok.mp h
    exact ⟨index, listed⟩
  · rintro ⟨index, listed⟩
    exact ⟨_, Outcome.bind_ok.mpr ⟨index, listed, rfl⟩⟩

theorem ofTypes_error {platform : Platform} {types : List FieldType} {fault : FieldFault}
    (h : ofTypes platform types = .error fault) :
    ∃ front u behind, FieldType.fieldsOfAll types = front ++ u :: behind ∧
      fault = .duplicateField u.shortName ∧ ∃ t ∈ front, t.answers u.shortName = true := by
  rcases Outcome.bind_error.mp h with refused | ⟨index, -, h⟩
  · exact NameIndex.ofTypes_error refused
  · cases h

def Indexed (d : Definition) : Prop :=
  NameIndex.ofTypes d.types = .ok d.index

theorem indexed_restrict {d d' : Definition} {names : List String} (indexed : d.Indexed)
    (h : d.restrict names = .ok d') : d'.Indexed := by
  unfold restrict at h
  split at h
  · cases h
    exact indexed
  · obtain ⟨wanted, -, h⟩ := Outcome.bind_ok.mp h
    obtain ⟨index, listed, h⟩ := Outcome.bind_ok.mp h
    cases h
    exact listed

theorem types_index_modifyValue? {α : Type} {change : Value → α × Value} {d d' : Definition}
    {name : String} {a : α} (h : d.modifyValue? name change = some (a, d')) :
    d'.types = d.types ∧ d'.index = d.index := by
  obtain ⟨_, -, same⟩ := Option.map_eq_some_iff.mp h
  cases same
  exact ⟨rfl, rfl⟩

theorem types_index_assign [Libraries] {d d' : Definition} {name : String} {s : Scalar}
    (h : d.assign name s = .ok d') : d'.types = d.types ∧ d'.index = d.index := by
  unfold assign at h
  dsimp only at h
  split at h
  · cases h
  · rename_i changed
    cases h
    exact types_index_modifyValue? changed
  · cases h

theorem Reached.indexed [Libraries] {d : Definition} (reached : d.Reached) : d.Indexed := by
  induction reached with
  | new defined =>
    obtain ⟨index, listed, defined⟩ := Outcome.bind_ok.mp defined
    cases defined
    exact listed
  | assigned _ name s accepted ih =>
    obtain ⟨types, index⟩ := types_index_assign accepted
    rw [Indexed, types, index]
    exact ih
  | changed _ name path change found ih =>
    obtain ⟨types, index⟩ := types_index_modifyValue? found
    rw [Indexed, types, index]
    exact ih
  | parsed _ _ _ ih | derived _ ih | reset _ ih => exact ih
  | restricted _ names kept ih => exact indexed_restrict ih kept

section Fields

variable {d : Definition} (indexed : d.Indexed)
include indexed

theorem field_eq (name : String) : d.field name =
    match (FieldType.fieldsOfAll d.types).find?
      (FieldType.answers (String.ofList (Text.trim name.toList))) with
    | some t => .ok t
    | none => .error (.fieldNotFound (String.ofList (Text.trim name.toList))) := by
  rw [← NameIndex.lookup_ofTypes indexed]
  rfl

theorem field_ok_iff {name : String} {t : FieldType} : d.field name = .ok t ↔
    (FieldType.fieldsOfAll d.types).find?
      (FieldType.answers (String.ofList (Text.trim name.toList))) = some t := by
  rw [field_eq indexed]
  split
  · rename_i u found
    simp [found]
  · rename_i found
    simp [found]

theorem mem_of_field {name : String} {t : FieldType} (h : d.field name = .ok t) :
    t ∈ FieldType.fieldsOfAll d.types :=
  List.mem_of_find?_eq_some ((field_ok_iff indexed).mp h)

theorem eq_of_shortName {t u : FieldType} (ht : t ∈ FieldType.fieldsOfAll d.types)
    (hu : u ∈ FieldType.fieldsOfAll d.types) (same : t.shortName = u.shortName) : t = u :=
  List.inj_on_of_nodup_map (NameIndex.unclaimed_of_ofTypes indexed).nodup ht hu same

end Fields

/-- Fields whose long names stay apart are a definition exactly when their short names are distinct.
Other fields are refused for a short name that stands twice, and neither the order of the fields nor
their long names play a part. -/
theorem accepted_iff_distinct (platform : Platform) {types : List FieldType}
    (apart : FieldType.LongNamesApart types) :
    ((∃ d, ofTypes platform types = .ok d) ↔ (FieldType.shortNamesOfAll types).Nodup) ∧
      (∀ fault, ofTypes platform types = .error fault → fault.code = 173 ∧
        ∃ name, fault = .duplicateField name ∧ 2 ≤ (FieldType.shortNamesOfAll types).count name) ∧
      (∀ types', types'.Perm types →
        ((∃ d, ofTypes platform types' = .ok d) ↔ ∃ d, ofTypes platform types = .ok d)) ∧
      ∀ types', FieldType.LongNamesApart types' →
        FieldType.shortNamesOfAll types' = FieldType.shortNamesOfAll types →
        ((∃ d, ofTypes platform types' = .ok d) ↔ ∃ d, ofTypes platform types = .ok d) := by
  have accepted : ∀ {types' : List FieldType}, FieldType.LongNamesApart types' →
      ((∃ d, ofTypes platform types' = .ok d) ↔ (FieldType.shortNamesOfAll types').Nodup) :=
    fun apart' => exists_ofTypes_iff.trans apart'.unclaimed_iff
  refine ⟨accepted apart, fun fault refused => ?_, fun types' same => ?_,
    fun types' apart' same => ?_⟩
  · obtain ⟨front, u, behind, split, rfl, t, earlier, clash⟩ := ofTypes_error refused
    have shared : t.shortName = u.shortName := by
      rcases FieldType.answers_iff.mp clash with short | long
      · exact short
      · exact apart t (by simp [split, earlier]) u (by simp [split]) long
    have first : 0 < (front.map FieldType.shortName).count u.shortName :=
      List.count_pos_iff.mpr (List.mem_map.mpr ⟨t, earlier, shared⟩)
    refine ⟨rfl, u.shortName, rfl, ?_⟩
    rw [FieldType.shortNamesOfAll, split, List.map_append, List.map_cons, List.count_append,
      List.count_cons_self]
    omega
  · have fields := FieldType.fieldsOfAll_perm same
    have apart' : FieldType.LongNamesApart types' := fun t ht u hu =>
      apart t (fields.mem_iff.mp ht) u (fields.mem_iff.mp hu)
    rw [accepted apart', accepted apart]
    exact (fields.map FieldType.shortName).nodup_iff
  · rw [accepted apart', accepted apart, same]

/-- A group, a multiple-value field that shares its name with its element, and long names. -/
def sampleFields : List FieldType :=
  [.group "GA" [{ FieldType.ofKind .unpacked "AA" with name := "Amount" }],
    .multiple { FieldType.ofKind (.text .short false) "MA" with name := "Amount" }]

theorem sample_fields_accepted :
    FieldType.LongNamesApart sampleFields ∧ (FieldType.shortNamesOfAll sampleFields).Nodup ∧
      ∃ d, ofTypes .openSystem sampleFields.reverse = .ok d := by
  have apart : FieldType.LongNamesApart sampleFields := by decide
  have distinct : (FieldType.shortNamesOfAll sampleFields).Nodup := by decide
  obtain ⟨accepted, -, ordered, -⟩ := accepted_iff_distinct .openSystem apart
  exact ⟨apart, distinct, (ordered _ (List.reverse_perm _)).mpr (accepted.mpr distinct)⟩

def clashingFields : List FieldType :=
  [{ FieldType.ofKind (.text .short false) "AA" with name := "AB" },
    .ofKind (.text .short false) "AB"]

/-- A long name takes the short name of a field behind it, which is refused although all short names
are distinct; in front of it the field is accepted. -/
theorem long_name_takes_short_name :
    (FieldType.shortNamesOfAll clashingFields).Nodup ∧
      ofTypes .openSystem clashingFields = .error (.duplicateField "AB") ∧
      ∃ d, ofTypes .openSystem clashingFields.reverse = .ok d :=
  ⟨by decide, rfl, _, rfl⟩

end Definition

end RecordCodec
