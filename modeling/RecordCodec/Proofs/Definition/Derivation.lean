import RecordCodec.Libraries.Standard
import RecordCodec.Proofs.Definition.Lookups

/-!
Super-descriptors that are made of plain fields. Each is composed from the values as they stand
before the run, although the run writes one after the other: a value that is written is a
super-descriptor, and no parent is one. So a run succeeds if every entry fits its parent, stops at
the first entry that does not, and changes nothing when it is made a second time.
-/
namespace RecordCodec

def FieldType.derivedEntries (t : FieldType) : List SuperEntry :=
  if t.kind = .superDescriptor then t.superEntries else []

theorem FieldType.derivedEntries_of_kind {t : FieldType} (kind : t.kind = .superDescriptor) :
    t.derivedEntries = t.superEntries :=
  if_pos kind

/-- The length of a super-descriptor is the sum of its entries as long as words of four bytes hold
them. -/
theorem FieldType.superLength_eq_sum {entries : List SuperEntry}
    (ends : ∀ e ∈ entries, e.last + 1 < UInt32.size)
    (sum : (entries.map SuperEntry.extent).sum < UInt32.size) :
    superLength entries = (entries.map SuperEntry.extent).sum := by
  induction entries with
  | nil => rfl
  | cons e rest ih =>
    obtain ⟨here, later⟩ := List.forall_mem_cons.mp ends
    rw [List.map_cons, List.sum_cons] at sum ⊢
    have total := ih later (Nat.lt_of_le_of_lt (Nat.le_add_left ..) sum)
    rw [superLength] at total ⊢
    rw [List.foldr_cons, total, SuperEntry.length, Nat.mod_eq_of_lt here]
    exact Nat.mod_eq_of_lt sum

theorem FieldType.compose_congr {t : FieldType} {lookup lookup' : String → Option Value}
    (same : ∀ e ∈ t.superEntries, lookup e.parent = lookup' e.parent) :
    t.compose lookup = t.compose lookup' := by
  rw [compose, compose]
  congr 1
  exact Outcome.mapM_congr fun e listed => by rw [SuperEntry.bytes, SuperEntry.bytes, same e listed]

namespace Value

/-- A value before and after a run: a super-descriptor can have got other bytes. -/
inductive Rewritten : Value → Value → Prop where
  | same {v : Value} : Rewritten v v
  | composed {l : Leaf} (bytes : List UInt8) (kind : l.place.type.kind = .superDescriptor) :
      Rewritten (.leaf l) (.leaf { l with content := .superDescriptor bytes })

theorem rewritten_refl (values : List Value) : List.Forall₂ Rewritten values values :=
  List.forall₂_same.mpr fun _ _ => .same

/-- A name that finds no super-descriptor finds the same value when super-descriptors are
rewritten. -/
theorem findInMembers?_rewritten {name : String} {values values' : List Value}
    (rewritten : List.Forall₂ Rewritten values values')
    (plain : ∀ w, findInMembers? name values = some w → w.type.kind ≠ .superDescriptor) :
    findInMembers? name values' = findInMembers? name values := by
  induction rewritten with
  | nil => rfl
  | @cons v v' rest rest' here _ ih =>
    rw [findInMembers?] at plain
    rw [findInMembers?, findInMembers?]
    cases here with
    | same =>
      cases found : v.find? name with
      | some w => rw [Option.some_or, Option.some_or]
      | none =>
        rw [found, Option.none_or] at plain
        rw [Option.none_or, Option.none_or, ih plain]
    | @composed l bytes kind =>
      by_cases named : l.place.type.answers name = true
      · have found : (leaf l).find? name = some (leaf l) := find?_of_answers named
        rw [found, Option.some_or] at plain
        exact absurd kind (plain _ rfl)
      · have other := Bool.eq_false_iff.mpr named
        have absent : (leaf l).find? name = none := find?_leaf other
        have absent' : (leaf { l with content := .superDescriptor bytes }).find? name = none :=
          find?_leaf other
        rw [absent, Option.none_or] at plain
        rw [absent, absent', Option.none_or, Option.none_or, ih plain]

/-- The value with its bytes composed from the parents that `lookup` finds, if it is a
super-descriptor. -/
def composed (lookup : String → Option Value) (v : Value) : Except FieldFault Value :=
  match v.superDescriptor? with
  | none => .ok v
  | some l =>
    (l.place.type.compose lookup).map fun bytes =>
      .leaf { l with content := .superDescriptor bytes }

theorem WellFormed.superDescriptor_cases {v : Value} (formed : v.WellFormed) :
    (v.type.kind ≠ .superDescriptor ∧ v.superDescriptor? = none) ∨
      ∃ l, v = .leaf l ∧ l.place.type.kind = .superDescriptor ∧ v.superDescriptor? = some l := by
  cases formed with
  | @node p elements shape =>
    refine .inl ⟨fun kind => ?_, rfl⟩
    have kind : p.type.kind = .superDescriptor := kind
    rw [kind] at shape
    cases shape
  | @leaf l typed =>
    by_cases kind : l.place.type.kind = .superDescriptor
    · have shape := Content.IsOf.of_kind typed
      rw [kind] at shape
      obtain ⟨bytes, content⟩ := shape
      exact .inr ⟨l, rfl, kind, by rw [superDescriptor?, content]⟩
    · refine .inl ⟨kind, ?_⟩
      cases found : (Value.leaf l).superDescriptor? with
      | none => rfl
      | some l' =>
        obtain ⟨same, bytes, content⟩ := Definition.superDescriptor?_eq_some found
        cases same
        rw [Leaf.Typed, content] at typed
        exact absurd typed kind

end Value

namespace Definition

open Value (Rewritten)

/-! ### One entry -/

def Fits (d : Definition) (e : SuperEntry) : Prop :=
  ∃ parent, d.value? e.parent = some parent ∧ parent.type.isVariable = false ∧
    1 ≤ e.first ∧ e.first ≤ e.last ∧ e.last ≤ parent.bytes.length

/-- The fault codes of an entry, in the order of the checks. -/
inductive Refuses (d : Definition) (e : SuperEntry) : Nat → Prop where
  | missing (absent : d.value? e.parent = none) : Refuses d e 42
  | variable {parent : Value} (found : d.value? e.parent = some parent)
      (varies : parent.type.isVariable = true) : Refuses d e 172
  | outside {parent : Value} (found : d.value? e.parent = some parent)
      (closed : parent.type.isVariable = false)
      (beyond : ¬(1 ≤ e.first ∧ e.first ≤ e.last ∧ e.last ≤ parent.bytes.length)) : Refuses d e 38

def part (d : Definition) (e : SuperEntry) : List UInt8 :=
  (((d.value? e.parent).elim [] Value.bytes).take e.last).drop (e.first - 1)

section Entries

variable {d : Definition} {e : SuperEntry}

theorem length_part (fits : d.Fits e) : (d.part e).length = e.extent := by
  obtain ⟨parent, found, -, first, order, last⟩ := fits
  rw [part, found, Option.elim_some, List.length_drop, List.length_take, SuperEntry.extent]
  omega

theorem bytes_ok (descriptor : String) (bytes : List UInt8) :
    e.bytes descriptor d.value? = .ok bytes ↔ d.Fits e ∧ d.part e = bytes := by
  unfold SuperEntry.bytes Fits part
  cases d.value? e.parent with
  | none => simp
  | some parent =>
    dsimp only [Option.elim_some]
    rw [Outcome.unless_ok, Outcome.unless_ok, Except.ok.injEq, Bool.not_eq_true]
    have span : e.last - (e.first - 1) = e.extent ∨ e.first = 0 := by
      rw [SuperEntry.extent]
      omega
    constructor
    · rintro ⟨closed, inside, rfl⟩
      refine ⟨⟨parent, rfl, closed, by omega, by omega, by omega⟩, ?_⟩
      rw [List.drop_take, span.resolve_right (by omega)]
    · rintro ⟨⟨_, same, closed, first, order, last⟩, rfl⟩
      cases same
      refine ⟨closed, by omega, ?_⟩
      rw [List.drop_take, span.resolve_right (by omega)]

theorem bytes_error {descriptor : String} {fault : FieldFault}
    (h : e.bytes descriptor d.value? = .error fault) : d.Refuses e fault.code := by
  unfold SuperEntry.bytes at h
  split at h
  · rename_i absent
    cases h
    exact .missing absent
  · rename_i parent found
    rcases Outcome.unless_error.mp h with ⟨varies, rfl⟩ | ⟨closed, h⟩
    · exact .variable found varies
    · rcases Outcome.unless_error.mp h with ⟨beyond, rfl⟩ | ⟨-, h⟩
      · exact .outside found (Bool.eq_false_iff.mpr closed) (by omega)
      · cases h

theorem compose_ok {t : FieldType} {bytes : List UInt8} : t.compose d.value? = .ok bytes ↔
    (∀ e ∈ t.superEntries, d.Fits e) ∧ t.superEntries.flatMap d.part = bytes := by
  rw [FieldType.compose, Outcome.map_ok, List.flatMap]
  constructor
  · rintro ⟨parts, taken, rfl⟩
    obtain ⟨fit, rfl⟩ := (Outcome.mapM_ok_iff fun _ _ => bytes_ok _).mp taken
    exact ⟨fit, rfl⟩
  · rintro ⟨fit, rfl⟩
    exact ⟨_, (Outcome.mapM_ok_iff fun _ _ => bytes_ok _).mpr ⟨fit, rfl⟩, rfl⟩

def FirstRefused (d : Definition) (entries : List SuperEntry) (code : Nat) : Prop :=
  ∃ before e behind, entries = before ++ e :: behind ∧ (∀ e ∈ before, d.Fits e) ∧
    d.Refuses e code

theorem compose_error {t : FieldType} {fault : FieldFault}
    (h : t.compose d.value? = .error fault) : d.FirstRefused t.superEntries fault.code := by
  obtain ⟨before, e, behind, split, passed, failed⟩ :=
    Outcome.mapM_error_first (Outcome.map_error.mp h)
  refine ⟨before, e, behind, split, fun e earlier => ?_, bytes_error failed⟩
  obtain ⟨bytes, taken⟩ := passed e earlier
  exact ((bytes_ok _ _).mp taken).1

end Entries

/-! ### A run -/

def superEntries (d : Definition) : List SuperEntry :=
  d.types.flatMap FieldType.derivedEntries

def PlainParent (d : Definition) (e : SuperEntry) : Prop :=
  ∀ parent, d.value? e.parent = some parent → parent.type.kind ≠ .superDescriptor

def recomposed (d : Definition) (v : Value) : Value :=
  match v.superDescriptor? with
  | none => v
  | some l =>
    .leaf { l with content := .superDescriptor (l.place.type.superEntries.flatMap d.part) }

section Run

variable {d : Definition}

theorem superEntries_eq (formed : d.WellFormed) :
    d.superEntries = d.values.flatMap fun v => v.type.derivedEntries := by
  rw [superEntries, ← types_values formed, List.flatMap_map]

theorem composed_ok {v : Value} (formed : v.WellFormed) (v' : Value) :
    v.composed d.value? = .ok v' ↔
      (∀ e ∈ v.type.derivedEntries, d.Fits e) ∧ d.recomposed v = v' := by
  unfold Value.composed recomposed
  rcases formed.superDescriptor_cases with ⟨other, plain⟩ | ⟨l, rfl, kind, found⟩
  · rw [plain, FieldType.derivedEntries, if_neg other]
    simp
  · rw [found]
    dsimp only
    rw [Outcome.map_ok, Value.type, Value.place, FieldType.derivedEntries_of_kind kind]
    constructor
    · rintro ⟨bytes, composed, rfl⟩
      obtain ⟨fit, rfl⟩ := compose_ok.mp composed
      exact ⟨fit, rfl⟩
    · rintro ⟨fit, rfl⟩
      exact ⟨_, compose_ok.mpr ⟨fit, rfl⟩, rfl⟩

theorem composed_error {v : Value} (formed : v.WellFormed) {fault : FieldFault}
    (h : v.composed d.value? = .error fault) :
    d.FirstRefused v.type.derivedEntries fault.code := by
  unfold Value.composed at h
  rcases formed.superDescriptor_cases with ⟨-, plain⟩ | ⟨l, rfl, kind, found⟩
  · rw [plain] at h
    cases h
  · rw [found] at h
    rw [Value.type, Value.place, FieldType.derivedEntries_of_kind kind]
    exact compose_error (Outcome.map_error.mp h)

theorem paired_deriveFrom {done before rest : List Value} (split : d.values = done ++ rest)
    (rewritten : List.Forall₂ Rewritten done before) (formed : ∀ v ∈ rest, v.WellFormed)
    (plain : ∀ v ∈ rest, ∀ e ∈ v.type.derivedEntries, d.PlainParent e) :
    Outcome.paired (deriveFrom before rest) =
      (rest.mapM (Value.composed d.value?)).map fun vs => (before ++ vs, ()) := by
  -- By induction on the values that are left; those in front of them are rewritten already.
  induction rest generalizing done before with
  | nil => simp [deriveFrom, Outcome.paired, Except.map, pure, Except.pure]
  | cons v rest ih =>
    obtain ⟨here, formed⟩ := List.forall_mem_cons.mp formed
    obtain ⟨named, plain⟩ := List.forall_mem_cons.mp plain
    have next : ∀ v', Rewritten v v' → Outcome.paired (deriveFrom (before ++ [v']) rest) =
        (rest.mapM (Value.composed d.value?)).map fun vs => (before ++ v' :: vs, ()) := by
      intro v' same
      have later := ih (split.trans (List.append_cons done v rest))
        (List.rel_append rewritten (.cons same .nil)) formed plain
      simpa only [List.append_assoc, List.singleton_append] using later
    rw [deriveFrom, List.mapM_cons, Value.composed]
    rcases here.superDescriptor_cases with ⟨-, other⟩ | ⟨l, rfl, kind, found⟩
    · rw [other]
      dsimp only
      rw [next v .same]
      cases rest.mapM (Value.composed d.value?) <;> rfl
    · rw [found]
      dsimp only
      -- The entries find in the values of this moment what they find in those before the run.
      have same : l.place.type.compose (fun name =>
          Value.findInMembers? name (before ++ .leaf l :: rest)) =
          l.place.type.compose d.value? := by
        refine FieldType.compose_congr fun e listed => ?_
        rw [value?, split]
        refine Value.findInMembers?_rewritten
          (List.rel_append rewritten (Value.rewritten_refl _)) ?_
        rw [← split]
        exact named e (by rwa [Value.type, Value.place, FieldType.derivedEntries_of_kind kind])
      rw [same]
      cases l.place.type.compose d.value? with
      | error fault => rfl
      | ok bytes =>
        dsimp only
        rw [next _ (.composed bytes kind)]
        cases rest.mapM (Value.composed d.value?) <;> rfl

theorem paired_derive (formed : d.WellFormed) (plain : ∀ e ∈ d.superEntries, d.PlainParent e) :
    Outcome.paired d.derive =
      (d.values.mapM (Value.composed d.value?)).map fun vs => ({ d with values := vs }, ()) := by
  rw [superEntries_eq formed] at plain
  have run := paired_deriveFrom (List.nil_append d.values).symm .nil formed.values
    fun v listed e inside => plain e (List.mem_flatMap.mpr ⟨v, listed, inside⟩)
  cases all : d.values.mapM (Value.composed d.value?) with
  | error fault =>
    rw [all] at run
    have failed : (deriveFrom [] d.values).2 = .error fault := Outcome.paired_error.mp run
    exact Outcome.paired_error.mpr failed
  | ok vs =>
    rw [all] at run
    rw [derive, Outcome.paired_ok.mp run]
    rfl

theorem derive_ok (formed : d.WellFormed) (plain : ∀ e ∈ d.superEntries, d.PlainParent e)
    {d' : Definition} : d.derive = (d', .ok ()) ↔
      (∀ e ∈ d.superEntries, d.Fits e) ∧ { d with values := d.values.map d.recomposed } = d' := by
  have each : ∀ v ∈ d.values, ∀ v', v.composed d.value? = .ok v' ↔ _ :=
    fun v listed => composed_ok (formed.values v listed)
  rw [← Outcome.paired_ok, paired_derive formed plain, Outcome.map_ok, superEntries_eq formed,
    List.forall_mem_flatMap]
  constructor
  · rintro ⟨vs, all, same⟩
    cases same
    obtain ⟨fit, rfl⟩ := (Outcome.mapM_ok_iff each).mp all
    exact ⟨fit, rfl⟩
  · rintro ⟨fit, rfl⟩
    exact ⟨_, (Outcome.mapM_ok_iff each).mpr ⟨fit, rfl⟩, rfl⟩

theorem derive_error (formed : d.WellFormed) (plain : ∀ e ∈ d.superEntries, d.PlainParent e)
    {fault : FieldFault} (h : d.derive.2 = .error fault) :
    d.FirstRefused d.superEntries fault.code := by
  have failed := Outcome.paired_error.mpr h
  rw [paired_derive formed plain, Outcome.map_error] at failed
  obtain ⟨passed, v, rest, split, fit, here⟩ := Outcome.mapM_error_first failed
  have inside : ∀ u ∈ passed ++ v :: rest, u.WellFormed := fun u listed =>
    formed.values u (split ▸ listed)
  obtain ⟨before, e, behind, entries, earlier, refused⟩ :=
    composed_error (inside v (by simp)) here
  refine ⟨passed.flatMap (fun v => v.type.derivedEntries) ++ before, e,
    behind ++ rest.flatMap fun v => v.type.derivedEntries, ?_, ?_, refused⟩
  · rw [superEntries_eq formed, split, List.flatMap_append, List.flatMap_cons, entries]
    simp only [List.append_assoc, List.cons_append]
  · refine List.forall_mem_append.mpr ⟨List.forall_mem_flatMap.mpr fun u listed => ?_, earlier⟩
    obtain ⟨u', composed⟩ := fit u listed
    exact ((composed_ok (inside u (by simp [listed])) u').mp composed).1

theorem rewritten_recomposed {v : Value} (formed : v.WellFormed) :
    Rewritten v (d.recomposed v) := by
  unfold recomposed
  rcases formed.superDescriptor_cases with ⟨-, plain⟩ | ⟨l, rfl, kind, found⟩
  · rw [plain]
    exact .same
  · rw [found]
    exact .composed _ kind

theorem value?_recomposed (formed : d.WellFormed) {e : SuperEntry} (plain : d.PlainParent e) :
    ({ d with values := d.values.map d.recomposed } : Definition).value? e.parent =
      d.value? e.parent :=
  Value.findInMembers?_rewritten
    (List.forall₂_map_right_iff.mpr <| List.forall₂_same.mpr fun v listed =>
      rewritten_recomposed (formed.values v listed)) plain

theorem recomposed_again {d' : Definition} {v : Value}
    (same : ∀ e ∈ v.type.derivedEntries, d'.value? e.parent = d.value? e.parent)
    (formed : v.WellFormed) : d'.recomposed (d.recomposed v) = d.recomposed v := by
  unfold recomposed
  rcases formed.superDescriptor_cases with ⟨-, plain⟩ | ⟨l, rfl, kind, found⟩
  · rw [plain]
    dsimp only
    rw [plain]
  · rw [found]
    rw [Value.type, Value.place, FieldType.derivedEntries_of_kind kind] at same
    have parts : l.place.type.superEntries.flatMap d'.part =
        l.place.type.superEntries.flatMap d.part :=
      List.flatMap_congr fun e listed => by rw [part, part, same e listed]
    show Value.leaf _ = Value.leaf _
    rw [parts]

theorem derive_again (formed : d.WellFormed) (plain : ∀ e ∈ d.superEntries, d.PlainParent e)
    {d' : Definition} (formed' : d'.WellFormed) (h : d.derive = (d', .ok ())) :
    d'.derive = (d', .ok ()) := by
  obtain ⟨fit, rfl⟩ := (derive_ok formed plain).mp h
  have parents := fun e listed => value?_recomposed formed (plain e listed)
  refine (derive_ok formed' fun e listed parent found => ?_).mpr ⟨fun e listed => ?_, ?_⟩
  · rw [parents e listed] at found
    exact plain e listed parent found
  · obtain ⟨parent, found, rest⟩ := fit e listed
    exact ⟨parent, (parents e listed).trans found, rest⟩
  · rw [superEntries_eq formed] at parents
    congr 1
    rw [List.map_map]
    exact List.map_congr_left fun v listed => recomposed_again
      (fun e inside => parents e (List.mem_flatMap.mpr ⟨v, listed, inside⟩))
      (formed.values v listed)

end Run

/-! ### What a run does -/

/-- No name of an entry leads to a super-descriptor, whatever the values are. -/
def NamesFields (d : Definition) : Prop :=
  ∀ e ∈ d.superEntries, ∀ t ∈ FieldType.leadsOfAll e.parent d.types, t.kind ≠ .superDescriptor

/-- The super-descriptors have the length that their entries add up to. -/
def KeepsLengths (d : Definition) : Prop :=
  ∀ t ∈ d.types, t.kind = .superDescriptor →
    t.length = (t.superEntries.map SuperEntry.extent).sum

theorem keepsLengths_of_declared {d : Definition} (declared : ∀ t ∈ d.types,
    t.kind = .superDescriptor → t.length = FieldType.superLength t.superEntries ∧
      (∀ e ∈ t.superEntries, e.last + 1 < UInt32.size) ∧
      (t.superEntries.map SuperEntry.extent).sum < UInt32.size) : d.KeepsLengths := by
  intro t listed kind
  obtain ⟨length, ends, sum⟩ := declared t listed kind
  exact length.trans (FieldType.superLength_eq_sum ends sum)

structure Derives (d : Definition) (v v' : Value) : Prop where
  place : v'.place = v.place
  other : v.type.kind ≠ .superDescriptor → v' = v
  bytes : v.type.kind = .superDescriptor → v'.bytes = v.type.superEntries.flatMap d.part
  length : v.type.kind = .superDescriptor → v'.bytes.length = v.type.length
  extent : v.type.kind = .superDescriptor →
    v.type.length = (v.type.superEntries.map fun e => e.last - e.first + 1).sum

theorem NamesFields.plainParent [Libraries] {d : Definition} (named : d.NamesFields)
    (reached : d.Reached) :
    ∀ e ∈ d.superEntries, d.PlainParent e := fun e listed _ found =>
  named e listed _ (leads_of_value? reached.wellFormed reached.sound found)

theorem derives_recomposed {d : Definition} (kept : d.KeepsLengths) {v : Value}
    (formed : v.WellFormed) (declared : v.type ∈ d.types)
    (fit : ∀ e ∈ v.type.derivedEntries, d.Fits e) : d.Derives v (d.recomposed v) := by
  unfold recomposed
  rcases formed.superDescriptor_cases with ⟨other, plain⟩ | ⟨l, rfl, kind, found⟩
  · rw [plain]
    exact ⟨rfl, fun _ => rfl, fun kind => absurd kind other, fun kind => absurd kind other,
      fun kind => absurd kind other⟩
  · rw [found]
    rw [Value.type, Value.place, FieldType.derivedEntries_of_kind kind] at fit
    have extent := kept _ declared kind
    refine ⟨rfl, fun other => absurd kind other, fun _ => rfl, fun _ => ?_, fun _ => ?_⟩
    · show (l.place.type.superEntries.flatMap d.part).length = _
      rw [extent, List.length_flatMap]
      exact congrArg List.sum (List.map_congr_left fun e listed => length_part (fit e listed))
    · rw [extent]
      refine congrArg List.sum (List.map_congr_left fun e listed => ?_)
      obtain ⟨-, -, -, first, order, -⟩ := fit e listed
      rw [SuperEntry.extent]
      omega

namespace Sample

def composedFields : List FieldType :=
  [.ofKind (.binary .four false) "U4",
    .group "AB" [{ FieldType.ofKind (.text .short false) "AD" with length := 6 },
      { FieldType.ofKind (.packed .number) "AC" with length := 2 }],
    .superDescriptor "S1" [⟨"AD", 1, 2⟩, ⟨"U4", 3, 4⟩]]

end Sample

end Definition

end RecordCodec
