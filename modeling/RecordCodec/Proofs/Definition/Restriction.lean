import RecordCodec.Libraries.Standard
import RecordCodec.Proofs.Definition.Built

/-!
Restricting a definition keeps exactly what was asked for: the named fields and all that stands in a
named structure, under the names that they had. Groups around a named field stay with what is left
of them. Restricting again by the same names changes nothing.
-/
namespace RecordCodec

namespace Definition

def named (d : Definition) (names : List String) (t : FieldType) : Bool :=
  names.any fun name => (d.field name).toOption.any fun u => u.shortName == t.shortName

/-- What a restriction to some names makes of a definition. -/
structure Restricted (d : Definition) (names : List String) (d' : Definition) : Prop where
  platform : d'.platform = d.platform
  /-- Of the fields that are no structures, those are left that are named or stand in a named
  structure, in their order. -/
  scalars : FieldType.scalarsOfAll d'.types =
    ((FieldType.sitesOfAll [] d.types).filter (Site.asked (d.named names))).map Site.field
  /-- A group without members is named or stands in a named structure. -/
  filled : ∀ s ∈ FieldType.sitesOfAll [] d'.types, s.field.isGroup = true → s.field.children = [] →
    s.covered (d.named names) = true
  /-- Each of the names stands for the field that it stood for. -/
  resolved : ∀ name ∈ names, d'.field name = d.field name
  /-- No name stands for a field that is not left. -/
  remaining : ∀ name t, d'.field name = .ok t → t ∈ FieldType.walkAll d'.types
  fresh : d'.values = d'.types.map (FieldType.fresh d'.platform)
  settled : d'.restrict names = .ok d'

section Restricting

variable {d : Definition} {names : List String}

theorem named_eq {wanted : List String} (resolved : d.shortNames names = .ok wanted) :
    d.named names = FieldType.isWanted wanted := by
  obtain ⟨back, into⟩ := Outcome.mapM_ok resolved
  funext t
  rw [Bool.eq_iff_iff, FieldType.isWanted_iff, named, List.any_eq_true]
  constructor
  · rintro ⟨name, listed, same⟩
    obtain ⟨w, among, found⟩ := into name listed
    obtain ⟨u, known, rfl⟩ := Outcome.map_ok.mp found
    rw [known] at same
    exact beq_iff_eq.mp same ▸ among
  · intro among
    obtain ⟨name, listed, found⟩ := back _ among
    obtain ⟨u, known, same⟩ := Outcome.map_ok.mp found
    refine ⟨name, listed, ?_⟩
    rw [known]
    exact beq_iff_eq.mpr same

theorem exists_shortNames_iff :
    (∃ wanted, d.shortNames names = .ok wanted) ↔ ∀ name ∈ names, ∃ t, d.field name = .ok t := by
  refine Outcome.exists_mapM_ok_iff.trans (forall₂_congr fun name _ => ?_)
  constructor
  · rintro ⟨w, found⟩
    obtain ⟨t, known, -⟩ := Outcome.map_ok.mp found
    exact ⟨t, known⟩
  · rintro ⟨t, known⟩
    exact ⟨t.shortName, Outcome.map_ok.mpr ⟨t, known, rfl⟩⟩

theorem field_error_code {name : String} {fault : FieldFault} (h : d.field name = .error fault) :
    fault.code = 42 := by
  unfold field at h
  dsimp only at h
  split at h
  · cases h
  · cases h
    rfl

/-- What is left of a definition when the fields with some short names are asked for. -/
structure Leaves (d : Definition) (wanted : List String) (d' : Definition) : Prop where
  platform : d'.platform = d.platform
  types : d'.types = FieldType.restrictAll wanted d.types
  indexed : d'.Indexed
  fresh : d'.values = d'.types.map (FieldType.fresh d'.platform)

section Left

variable {wanted : List String} {d' : Definition} (left : d.Leaves wanted d')
include left

theorem Leaves.eq {d'' : Definition} (left' : d.Leaves wanted d'') : d'' = d' := by
  have types : d''.types = d'.types := left'.types.trans left.types.symm
  have platform : d''.platform = d'.platform := left'.platform.trans left.platform.symm
  have index : d''.index = d'.index := by
    have indexed := left'.indexed
    rw [Indexed, types, left.indexed] at indexed
    exact (Except.ok.inj indexed).symm
  have values : d''.values = d'.values := by rw [left'.fresh, left.fresh, types, platform]
  cases d'
  cases d''
  simp only at platform types index values
  rw [platform, types, index, values]

theorem Leaves.again : d'.Leaves wanted d' where
  platform := rfl
  types := by rw [left.types, FieldType.restrictAll_again]
  indexed := left.indexed
  fresh := left.fresh

theorem Leaves.field_eq (indexed : d.Indexed) (formed : ∀ t ∈ d.types, t.ScalarElements)
    {name : String} {t : FieldType} (found : d.field name = .ok t) (asked : t.shortName ∈ wanted) :
    d'.field name = .ok t := by
  rw [field_ok_iff left.indexed, left.types]
  exact FieldType.find?_restrictAll formed ((field_ok_iff indexed).mp found) asked

theorem Leaves.mem_walk {name : String} {t : FieldType} (found : d'.field name = .ok t) :
    t ∈ FieldType.walkAll d'.types := by
  obtain ⟨u, field, inside⟩ := FieldType.mem_fieldsOfAll.mp (mem_of_field left.indexed found)
  exact FieldType.mem_walkAll.mpr ⟨u, field, FieldType.mem_walk_of_mem_fields inside⟩

theorem Leaves.covered {s : Site} (inside : s ∈ FieldType.sitesOfAll [] d'.types)
    (group : s.field.isGroup = true) (bare : s.field.children = []) :
    s.covered (FieldType.isWanted wanted) = true := by
  rw [left.types, FieldType.sitesOfAll_eq, FieldType.restrictAll_eq] at inside
  obtain ⟨u, kept, inside⟩ := List.mem_flatMap.mp inside
  obtain ⟨t, -, kept⟩ := List.mem_filterMap.mp kept
  exact FieldType.covered_of_restrict? kept inside group bare

end Left

theorem restrict_eq (plain : ∀ name ∈ names, isWildcard name = false) : d.restrict names = do
    let wanted ← d.shortNames names
    let index ← NameIndex.ofTypes (FieldType.restrictAll wanted d.types)
    return reset { d with types := FieldType.restrictAll wanted d.types, index } :=
  if_neg (by simpa using plain)

theorem restrict_leaves (indexed : d.Indexed) (plain : ∀ name ∈ names, isWildcard name = false)
    {wanted : List String} (resolved : d.shortNames names = .ok wanted) :
    ∃ d', d.restrict names = .ok d' ∧ d.Leaves wanted d' := by
  have unclaimed : FieldType.Unclaimed
      (FieldType.fieldsOfAll (FieldType.restrictAll wanted d.types)) :=
    (NameIndex.unclaimed_of_ofTypes indexed).restrictAll
  obtain ⟨index, listed⟩ := NameIndex.exists_ofTypes_iff.mpr unclaimed
  refine ⟨reset { d with types := FieldType.restrictAll wanted d.types, index }, ?_,
    ⟨rfl, rfl, listed, rfl⟩⟩
  rw [restrict_eq plain]
  exact Outcome.bind_ok.mpr ⟨wanted, resolved, Outcome.bind_ok.mpr ⟨index, listed, rfl⟩⟩

theorem restrict_error (indexed : d.Indexed) (plain : ∀ name ∈ names, isWildcard name = false)
    {fault : FieldFault} (h : d.restrict names = .error fault) :
    ∃ name ∈ names, d.field name = .error fault := by
  cases resolved : d.shortNames names with
  | ok wanted =>
    obtain ⟨d', done, -⟩ := restrict_leaves indexed plain resolved
    rw [done] at h
    cases h
  | error fault' =>
    rw [restrict_eq plain, resolved] at h
    cases h
    obtain ⟨name, listed, failed⟩ := Outcome.mapM_error resolved
    refine ⟨name, listed, ?_⟩
    cases found : d.field name with
    | ok t =>
      rw [found] at failed
      cases failed
    | error fault' =>
      rw [found] at failed
      cases failed
      rfl

theorem Leaves.restricted {wanted : List String} {d' : Definition} (left : d.Leaves wanted d')
    (indexed : d.Indexed) (formed : ∀ t ∈ d.types, t.ScalarElements)
    (plain : ∀ name ∈ names, isWildcard name = false)
    (resolved : d.shortNames names = .ok wanted) : d.Restricted names d' := by
  have known : ∀ name ∈ names, d'.field name = d.field name := by
    intro name listed
    obtain ⟨w, asked, found⟩ := (Outcome.mapM_ok resolved).2 name listed
    obtain ⟨t, known, rfl⟩ := Outcome.map_ok.mp found
    rw [known, left.field_eq indexed formed known asked]
  have resolved' : d'.shortNames names = .ok wanted := by
    rw [← resolved]
    exact Outcome.mapM_congr fun name listed => by rw [known name listed]
  obtain ⟨d'', done, left'⟩ := restrict_leaves left.indexed plain resolved'
  refine ⟨left.platform, ?_, fun s inside group bare => ?_, known, fun name t => left.mem_walk,
    left.fresh, done.trans (congrArg Except.ok (left.again.eq left'))⟩
  · rw [named_eq resolved, left.types]
    exact FieldType.scalars_restrictAll formed
  · rw [named_eq resolved]
    exact left.covered inside group bare

end Restricting

/-- A definition whose multiple-value fields repeat scalars is restricted by any names that it
knows, and by no others: an unknown name fails the restriction, and no new definition comes
about. -/
theorem restrict_keeps_named [Libraries] {d : Definition} (reached : d.Reached)
    (formed : ∀ t ∈ d.types, t.ScalarElements) {names : List String}
    (plain : ∀ name ∈ names, isWildcard name = false) :
    ((∃ d', d.restrict names = .ok d') ↔ ∀ name ∈ names, ∃ t, d.field name = .ok t) ∧
      (∀ fault, d.restrict names = .error fault → fault.code = 42 ∧
        ∃ name ∈ names, d.field name = .error fault) ∧
      ∀ d', d.restrict names = .ok d' → d.Restricted names d' := by
  have indexed := reached.indexed
  have resolves : ∀ d', d.restrict names = .ok d' → ∃ wanted, d.shortNames names = .ok wanted := by
    intro d' done
    obtain ⟨wanted, resolved, -⟩ := Outcome.bind_ok.mp (restrict_eq plain ▸ done)
    exact ⟨wanted, resolved⟩
  refine ⟨⟨fun ⟨d', done⟩ => exists_shortNames_iff.mp (resolves d' done), fun known => ?_⟩,
    fun fault refused => ?_, fun d' done => ?_⟩
  · obtain ⟨wanted, resolved⟩ := exists_shortNames_iff.mpr known
    obtain ⟨d', done, -⟩ := restrict_leaves indexed plain resolved
    exact ⟨d', done⟩
  · obtain ⟨name, listed, unknown⟩ := restrict_error indexed plain refused
    exact ⟨field_error_code unknown, name, listed, unknown⟩
  · obtain ⟨wanted, resolved⟩ := resolves d' done
    obtain ⟨d'', done', left⟩ := restrict_leaves indexed plain resolved
    rw [done'] at done
    cases done
    exact left.restricted indexed formed plain resolved

def nestedFields : List FieldType :=
  [.periodic "PG"
      [.ofKind .unpacked "AA", .group "GA" [.ofKind .octets "AB", .ofKind .unpacked "AC"]],
    .multiple { FieldType.ofKind (.text .short false) "MA" with name := "Colours" },
    .ofKind (.text .large false) "LB"]

theorem built_nestedFields : ∀ t ∈ nestedFields, t.Built := by
  simp only [nestedFields, List.forall_mem_cons]
  refine ⟨.periodic _ ?_, .multiple (.revised (.kind _ "MA") rfl rfl rfl fun _ => id) rfl,
    .kind _ _, by simp⟩
  simp only [List.forall_mem_cons]
  refine ⟨.kind _ _, .group _ ?_, by simp⟩
  simp only [List.forall_mem_cons]
  exact ⟨.kind _ _, .kind _ _, by simp⟩

/-- Two fields, one by its long name, with what is left of the groups around the other. -/
theorem nested_fields_restricted : ∃ d d', ofTypes .openSystem nestedFields = .ok d ∧
    (∀ t ∈ nestedFields, t.ScalarElements) ∧
      (∀ name ∈ [" AC", "Colours"], isWildcard name = false) ∧
      d.restrict [" AC", "Colours"] = .ok d' ∧ d.Restricted [" AC", "Colours"] d' ∧
      (FieldType.scalarsOfAll d'.types).map FieldType.shortName = ["AC", "MA"] := by
  have formed : ∀ t ∈ nestedFields, t.ScalarElements := fun t listed =>
    (built_nestedFields t listed).scalarElements
  have plain : ∀ name ∈ [" AC", "Colours"], isWildcard name = false := by decide
  obtain ⟨d, defined, types, d', done, left⟩ : ∃ d, ofTypes .openSystem nestedFields = .ok d ∧
      d.types = nestedFields ∧ ∃ d', d.restrict [" AC", "Colours"] = .ok d' ∧
        (FieldType.scalarsOfAll d'.types).map FieldType.shortName = ["AC", "MA"] :=
    ⟨_, rfl, rfl, _, rfl, by decide⟩
  obtain ⟨-, -, keeps⟩ := restrict_keeps_named (.new defined) (types ▸ formed) plain
  exact ⟨d, d', defined, formed, plain, done, keeps d' done, left⟩

end Definition

end RecordCodec
