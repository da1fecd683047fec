import RecordCodec.Proofs.Definition.Subset

/-!
The fields that declarations build. Each has the flags of its kind, and scalars for the elements of
its multiple-value fields, at any depth; a restriction leaves such fields.
-/
namespace RecordCodec.FieldType

/-- A field that declarations build, or that a restriction leaves of one. What is declared of it
further keeps its kind, its short name and the fields in it. -/
inductive Built : FieldType → Prop where
  | kind (kind : FieldKind) (shortName : String) : Built (ofKind kind shortName)
  | superDescriptor (shortName : String) (entries : List SuperEntry) :
      Built (superDescriptor shortName entries)
  | group (shortName : String) {children : List FieldType} (built : ∀ m ∈ children, Built m) :
      Built (group shortName children)
  | periodic (shortName : String) {children : List FieldType} (built : ∀ m ∈ children, Built m) :
      Built (periodic shortName children)
  | multiple {t : FieldType} (built : Built t) (scalar : t.kind.isStructure = false) :
      Built (multiple t)
  | revised {t u : FieldType} (built : Built t) (kind : u.kind = t.kind)
      (shortName : u.shortName = t.shortName) (children : u.children = t.children)
      (flags : ∀ f, t.hasFlag f = true → u.hasFlag f = true) : Built u
  | restricted {t u : FieldType} (built : Built t) {wanted : List String}
      (left : t.restrict? wanted = some u) : Built u

variable {t u : FieldType} {wanted : List String}

theorem declared_restrict? (declared : t.Declared) (left : t.restrict? wanted = some u) :
    u.Declared := by
  induction t using induct generalizing u with
  | step t ih =>
    obtain ⟨-, rfl⟩ | ⟨-, -, -, rfl⟩ := of_restrict?_some left
    · exact declared
    · refine declared.revised rfl (fun v kept => ?_) fun _ => id
      rw [children_holding, restrictAll_eq, List.mem_filterMap] at kept
      obtain ⟨m, child, left⟩ := kept
      exact ih m child ((declared_iff.mp declared).2 m child) left

theorem scalarElements_restrict? (formed : t.ScalarElements) (left : t.restrict? wanted = some u) :
    u.ScalarElements := by
  induction t using induct generalizing u with
  | step t ih =>
    obtain ⟨-, rfl⟩ | ⟨-, group, -, rfl⟩ := of_restrict?_some left
    · exact formed
    · refine scalarElements_iff.mpr ⟨fun _ _ => .inl group, fun v kept => ?_⟩
      rw [children_holding, restrictAll_eq, List.mem_filterMap] at kept
      obtain ⟨m, child, left⟩ := kept
      exact ih m child ((scalarElements_iff.mp formed).2 m child) left

theorem Built.declared (built : t.Built) : t.Declared := by
  induction built with
  | kind kind shortName => exact declared_ofKind kind shortName
  | superDescriptor shortName entries => exact declared_superDescriptor shortName entries
  | group shortName _ ih => exact declared_group shortName ih
  | periodic shortName _ ih => exact declared_periodic shortName ih
  | multiple _ _ ih => exact declared_multiple ih
  | revised _ kind _ children flags ih =>
    exact ih.revised kind (children ▸ (declared_iff.mp ih).2) flags
  | restricted _ left ih => exact declared_restrict? ih left

theorem Built.scalarElements (built : t.Built) : t.ScalarElements := by
  induction built with
  | kind => exact scalarElements_of_bare rfl
  | superDescriptor => exact scalarElements_of_bare rfl
  | group shortName _ ih => exact scalarElements_group shortName ih
  | periodic shortName _ ih => exact scalarElements_periodic shortName ih
  | multiple _ scalar ih => exact scalarElements_multiple scalar (ih.bare scalar)
  | revised _ kind shortName children _ ih => exact ih.revised kind shortName children
  | restricted _ left ih => exact scalarElements_restrict? ih left

end RecordCodec.FieldType
