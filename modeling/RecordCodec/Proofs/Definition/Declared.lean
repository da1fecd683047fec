import RecordCodec.Proofs.Value.Walk

/-!
The flags that a kind brings with it. Every way to declare a field gives them to the field and to
the fields in it, and whatever is declared further takes none of them away.
A range that is given by its bounds is never empty.
-/
namespace RecordCodec

theorem FlagSet.contains_insert {flags : FlagSet} {f g : FieldFlag}
    (had : flags.contains f = true) : (flags.insert g).contains f = true := by
  rw [List.contains_iff_mem] at had ⊢
  exact List.mem_insert_of_mem had

namespace FieldType

/-- A field as it can be declared: it and all fields in it have the flags of their kinds. -/
def Declared (t : FieldType) : Prop :=
  ∀ u ∈ t.walk, ∀ f ∈ kindFlags u.kind, u.hasFlag f = true

/-- A field whose range, if it is restricted to one, covers a byte, as a range given by its bounds
does. -/
def Covers (t : FieldType) : Prop :=
  ∀ range, t.partialRange = some range → 0 < range.length

theorem covers_whole {t : FieldType} (whole : t.partialRange = none) : t.Covers := by
  intro range restricted
  cases whole.symm.trans restricted

theorem covers_withPartial (t : FieldType) (first last : UInt32) :
    (t.withPartial (.ofBounds first last)).Covers := by
  intro range restricted
  cases restricted
  exact PartialRange.length_ofBounds_pos first last

section Declarations

variable {t u : FieldType} {children : List FieldType}

theorem mem_walk : u ∈ t.walk ↔ u = t ∨ u ∈ walkAll t.children := by
  cases t
  exact List.mem_cons

theorem declared_iff : t.Declared ↔
    (∀ f ∈ kindFlags t.kind, t.hasFlag f = true) ∧ ∀ m ∈ t.children, m.Declared := by
  constructor
  · intro declared
    refine ⟨declared t t.mem_walk_self, fun m child u deep => declared u ?_⟩
    exact mem_walk_of_children (mem_walkAll.mpr ⟨m, child, deep⟩)
  · rintro ⟨here, inside⟩ u deep
    rcases mem_walk.mp deep with rfl | deep
    · exact here
    · obtain ⟨m, child, deep⟩ := mem_walkAll.mp deep
      exact inside m child u deep

/-- Whatever else is declared of a field, its kind and the fields in it stay, and no flag goes. -/
theorem Declared.revised (declared : t.Declared) (kind : u.kind = t.kind)
    (children : ∀ m ∈ u.children, m.Declared)
    (flags : ∀ f, t.hasFlag f = true → u.hasFlag f = true) : u.Declared :=
  declared_iff.mpr ⟨fun f brought => flags f ((declared_iff.mp declared).1 f (kind ▸ brought)),
    children⟩

theorem declared_ofKind (kind : FieldKind) (shortName : String) :
    (ofKind kind shortName).Declared :=
  declared_iff.mpr ⟨fun _ brought => List.contains_iff_mem.mpr brought, fun m none => by cases none⟩

theorem declared_withFlag (declared : t.Declared) (f : FieldFlag) : (t.withFlag f).Declared :=
  declared.revised rfl (declared_iff.mp declared).2 fun _ => FlagSet.contains_insert

end Declarations

mutual

theorem declared_addFlagDeep (f : FieldFlag) {t : FieldType} (declared : t.Declared) :
    (t.addFlagDeep f).Declared := by
  match t with
  | ⟨kind, shortName, name, length, fraction, options, flags, charset, part, children, occurrence,
      superEntries⟩ =>
    exact declared.revised rfl (declared_addFlagDeepAll f (declared_iff.mp declared).2)
      fun _ => FlagSet.contains_insert

theorem declared_addFlagDeepAll (f : FieldFlag) {types : List FieldType}
    (declared : ∀ t ∈ types, t.Declared) : ∀ t ∈ addFlagDeepAll f types, t.Declared := by
  match types with
  | [] => exact declared
  | t :: rest =>
    obtain ⟨here, later⟩ := List.forall_mem_cons.mp declared
    exact List.forall_mem_cons.mpr ⟨declared_addFlagDeep f here, declared_addFlagDeepAll f later⟩

end

section Constructors

variable {t : FieldType} {children : List FieldType}

theorem declared_group (shortName : String) (declared : ∀ t ∈ children, t.Declared) :
    (group shortName children).Declared :=
  (declared_ofKind .group shortName).revised rfl declared fun _ => id

theorem declared_periodic (shortName : String) (declared : ∀ t ∈ children, t.Declared) :
    (periodic shortName children).Declared :=
  (declared_ofKind .periodicGroup shortName).revised rfl
    (declared_addFlagDeepAll .periodic declared) fun _ => id

theorem declared_multiple (declared : t.Declared) : (multiple t).Declared :=
  (declared_ofKind .multiple t.shortName).revised rfl
    (List.forall_mem_singleton.mpr (declared_withFlag declared .multipleElement)) fun _ => id

theorem declared_superDescriptor (shortName : String) (entries : List SuperEntry) :
    (superDescriptor shortName entries).Declared := by
  refine (declared_ofKind .superDescriptor shortName).revised rfl (fun m none => by cases none) ?_
  intro f had
  rw [hasFlag, List.contains_iff_mem] at had ⊢
  exact List.mem_append_left [.toBeRemoved] had

end Constructors

end FieldType

end RecordCodec
