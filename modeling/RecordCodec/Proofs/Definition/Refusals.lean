import RecordCodec.Libraries.Standard
import RecordCodec.Proofs.Definition.Reached

/-!
What a refused operation leaves behind. An assignment and a restriction are settled before anything
is written, so the definition stays as it was. Deriving writes one super-descriptor after the other:
when one cannot be composed, those in front of it have their new bytes already.
-/
namespace RecordCodec

namespace Value

/-- Assigns a scalar to a value in its place, which keeps the value when the scalar is refused. -/
def assignInPlace [Libraries] (s : Scalar) (v : Value) : Except FieldFault Unit × Value :=
  match v.assign s with
  | .ok v' => (.ok (), v')
  | .error fault => (.error fault, v)

section Unchanged

variable {α : Type} {name : String} {change : Value → α × Value} {a : α}

mutual

theorem modifyNamed?_unchanged (same : ∀ v, (change v).1 = a → (change v).2 = v) {v v' : Value}
    (found : v.modifyNamed? name change = some (a, v')) : v' = v := by
  unfold modifyNamed? at found
  split at found
  · have result := same v
    rw [Option.some.inj found] at result
    exact result rfl
  · cases v with
    | leaf => cases found
    | node p elements =>
      obtain ⟨⟨b, elements'⟩, inside, kept⟩ := Option.map_eq_some_iff.mp found
      cases kept
      rw [modifyInElements?_unchanged same inside]

theorem modifyInElements?_unchanged (same : ∀ v, (change v).1 = a → (change v).2 = v)
    {elements elements' : List (List Value)}
    (found : modifyInElements? name change elements = some (a, elements')) :
    elements' = elements := by
  match elements with
  | [] => cases found
  | element :: rest =>
    rw [modifyInElements?] at found
    split at found
    · rename_i changed
      cases found
      rw [modifyInMembers?_unchanged same changed]
    · obtain ⟨⟨b, rest'⟩, changed, kept⟩ := Option.map_eq_some_iff.mp found
      cases kept
      rw [modifyInElements?_unchanged same changed]

theorem modifyInMembers?_unchanged (same : ∀ v, (change v).1 = a → (change v).2 = v)
    {members members' : List Value}
    (found : modifyInMembers? name change members = some (a, members')) :
    members' = members := by
  match members with
  | [] => cases found
  | v :: rest =>
    rw [modifyInMembers?] at found
    split at found
    · rename_i changed
      cases found
      rw [modifyNamed?_unchanged same changed]
    · obtain ⟨⟨b, rest'⟩, changed, kept⟩ := Option.map_eq_some_iff.mp found
      cases kept
      rw [modifyInMembers?_unchanged same changed]

end

end Unchanged

theorem assignInPlace_refused [Libraries] {s : Scalar} {fault : FieldFault} (v : Value)
    (refused : (v.assignInPlace s).1 = .error fault) : (v.assignInPlace s).2 = v := by
  unfold assignInPlace at *
  cases assigned : v.assign s with
  | ok v' => simp [assigned] at refused
  | error fault => rfl

end Value

namespace Definition

/-- An operation that changes a definition and can be refused. -/
inductive Mutation where
  | assign (name : String) (s : Scalar)
  | restrict (names : List String)
  | derive

section

variable [Libraries]

def attempt (d : Definition) : Mutation → Definition × Except FieldFault Unit
  | .assign name s =>
    match d.modifyValue? name (Value.assignInPlace s) with
    | some (outcome, d') => (d', outcome)
    | none => (d, .error (.fieldNotFound name))
  | .restrict names =>
    match d.restrict names with
    | .ok d' => (d', .ok ())
    | .error fault => (d, .error fault)
  | .derive => d.derive

theorem assign_cases (d : Definition) (name : String) (s : Scalar) :
    (d.modifyValue? name (Value.assignInPlace s) = none ∧
        d.assign name s = .error (.fieldNotFound name)) ∨
      (∃ d', d.modifyValue? name (Value.assignInPlace s) = some (.ok (), d') ∧
        d.assign name s = .ok d') ∨
      ∃ fault d', d.modifyValue? name (Value.assignInPlace s) = some (.error fault, d') ∧
        d.assign name s = .error fault := by
  unfold assign
  dsimp only
  split
  · rename_i missing
    exact .inl ⟨missing, rfl⟩
  · rename_i d' modified
    exact .inr (.inl ⟨d', modified, rfl⟩)
  · rename_i fault d' modified
    exact .inr (.inr ⟨fault, d', modified, rfl⟩)

/-- An assignment by its result: what is left behind is the result, or the definition as it was. -/
theorem attempt_assign (d : Definition) (name : String) (s : Scalar) :
    d.attempt (.assign name s) =
      match d.assign name s with
      | .ok d' => (d', .ok ())
      | .error fault => (d, .error fault) := by
  rw [attempt]
  obtain ⟨missing, assigned⟩ | ⟨d', modified, assigned⟩ | ⟨fault, d', modified, assigned⟩ :=
    d.assign_cases name s
  · rw [missing, assigned]
  · rw [modified, assigned]
  · obtain ⟨⟨b, values⟩, found, same⟩ := Option.map_eq_some_iff.mp modified
    cases same
    have kept := Value.modifyInMembers?_unchanged
      (fun v refused => v.assignInPlace_refused refused) found
    rw [modified, assigned, kept]

theorem attempt_refused {d : Definition} {m : Mutation} {fault : FieldFault}
    (refused : (d.attempt m).2 = .error fault) (settled : m ≠ .derive) :
    (d.attempt m).1 = d := by
  cases m with
  | assign name s =>
    rw [attempt_assign] at *
    cases assigned : d.assign name s with
    | ok d' => simp [assigned] at refused
    | error fault => rfl
  | restrict names =>
    unfold attempt at *
    dsimp only at *
    cases kept : d.restrict names with
    | ok d' => simp [kept] at refused
    | error fault => rfl
  | derive => exact absurd rfl settled

end

/-! ### Deriving -/

/-- What deriving makes of one value when all values are as in `values`. -/
inductive Derived (values : List Value) : Value → Value → Prop where
  | other {v : Value} : v.superDescriptor? = none → Derived values v v
  | composed {l : Leaf} {bytes : List UInt8} : (Value.leaf l).superDescriptor? = some l →
      l.place.type.compose (fun name => Value.findInMembers? name values) = .ok bytes →
      Derived values (.leaf l) (.leaf { l with content := .superDescriptor bytes })

/-- What deriving makes of the values in front of `rest`, one after the other: each is composed from
those in front of it as they are by then and from those behind it as they were. -/
inductive DerivedAll : List Value → List Value → List Value → Prop where
  | nil {rest : List Value} : DerivedAll rest [] []
  | snoc {rest before after : List Value} {v v' : Value} :
      DerivedAll (v :: rest) before after → Derived (after ++ v :: rest) v v' →
      DerivedAll rest (before ++ [v]) (after ++ [v'])

/-- The values before and after a run of deriving that stops at a super-descriptor which cannot be
composed. -/
inductive StopsAt : List Value → List Value → FieldFault → Prop where
  | mk {before after rest : List Value} {l : Leaf} {fault : FieldFault} :
      DerivedAll (.leaf l :: rest) before after → (Value.leaf l).superDescriptor? = some l →
      l.place.type.compose (fun name => Value.findInMembers? name (after ++ .leaf l :: rest)) =
        .error fault →
      StopsAt (before ++ .leaf l :: rest) (after ++ .leaf l :: rest) fault

theorem deriveFrom_refused {before after rest : List Value} (done : DerivedAll rest before after)
    {fault : FieldFault} (refused : (deriveFrom after rest).2 = .error fault) :
    StopsAt (before ++ rest) (deriveFrom after rest).1 fault := by
  -- By induction on the values that are left; those in front of them are derived already.
  induction rest generalizing before after with
  | nil => cases refused
  | cons v rest ih =>
    rw [deriveFrom] at refused ⊢
    cases found : v.superDescriptor? with
    | none =>
      rw [found] at refused
      simpa using ih (done.snoc (.other found)) refused
    | some l =>
      obtain ⟨rfl, -⟩ := superDescriptor?_eq_some found
      rw [found] at refused
      dsimp only at refused ⊢
      cases composed : l.place.type.compose fun name =>
          Value.findInMembers? name (after ++ .leaf l :: rest) with
      | error failed =>
        rw [composed] at refused
        cases refused
        exact .mk done found composed
      | ok bytes =>
        rw [composed] at refused
        simpa using ih (done.snoc (.composed found composed)) refused

/-- The values keep their places, and none but super-descriptors change. -/
def OnlyDerived (values values' : List Value) : Prop :=
  List.Forall₂ (fun v v' => v'.place = v.place ∧ (v.superDescriptor? = none → v' = v)) values
    values'

theorem OnlyDerived.refl (values : List Value) : OnlyDerived values values := by
  induction values with
  | nil => exact .nil
  | cons v values ih => exact .cons ⟨rfl, fun _ => rfl⟩ ih

theorem DerivedAll.onlyDerived {rest before after : List Value}
    (derived : DerivedAll rest before after) : OnlyDerived before after := by
  induction derived with
  | nil => exact .nil
  | snoc _ last ih =>
    refine List.rel_append ih (.cons ?_ .nil)
    cases last with
    | other => exact ⟨rfl, fun _ => rfl⟩
    | composed found => exact ⟨rfl, fun none => by rw [none] at found; cases found⟩

theorem StopsAt.onlyDerived {values values' : List Value} {fault : FieldFault}
    (stops : StopsAt values values' fault) : OnlyDerived values values' := by
  obtain ⟨derived, -, -⟩ := stops
  exact List.rel_append derived.onlyDerived (OnlyDerived.refl _)

/-- A refused operation keeps the fields, what each name stands for, and all values but
super-descriptors. It changes nothing at all, or it is a run of deriving that stops at a
super-descriptor with those in front of it derived. -/
theorem refused_operations [Libraries] {d : Definition} {m : Mutation} {fault : FieldFault}
    (refused : (d.attempt m).2 = .error fault) :
    (d.attempt m).1.types = d.types ∧
      (∀ name, (d.attempt m).1.field name = d.field name) ∧
      OnlyDerived d.values (d.attempt m).1.values ∧
      ((d.attempt m).1 = d ∨ m = .derive ∧ StopsAt d.values (d.attempt m).1.values fault) := by
  by_cases run : m = .derive
  · subst run
    have stops : StopsAt d.values d.derive.1.values fault := deriveFrom_refused .nil refused
    exact ⟨rfl, fun _ => rfl, stops.onlyDerived, .inr ⟨rfl, stops⟩⟩
  · have same := attempt_refused refused run
    rw [same]
    exact ⟨rfl, fun _ => rfl, .refl _, .inl rfl⟩

namespace Sample

def halfComposable : List FieldType :=
  [.ofKind (.text .short false) "AA",
    { FieldType.ofKind (.text .short false) "BB" with length := 0 },
    .superDescriptor "S1" [⟨"AA", 1, 1⟩], .superDescriptor "S2" [⟨"BB", 1, 1⟩]]

end Sample

theorem sample_refused_operations : ∃ d : Definition, d.Reached ∧
    (d.attempt (.assign "AA" (.text ['X', 'Y']))).2 = .error (.textTooLong "AA" 2 1) ∧
    (d.attempt (.assign "AA" (.text ['X', 'Y']))).1 = d ∧
    (d.attempt .derive).2 = .error (.variableParent "S2" "BB") ∧
    OnlyDerived d.values (d.attempt .derive).1.values := by
  obtain ⟨d, reached, assigned, derived⟩ : ∃ d : Definition, d.Reached ∧
      (d.attempt (.assign "AA" (.text ['X', 'Y']))).2 = .error (.textTooLong "AA" 2 1) ∧
      (d.attempt .derive).2 = .error (.variableParent "S2" "BB") :=
    ⟨_, .assigned (.new (rfl : ofTypes .openSystem Sample.halfComposable = .ok _)) "AA"
      (.text ['X']) rfl, rfl, rfl⟩
  refine ⟨d, reached, assigned, ?_, derived, (refused_operations derived).2.2.1⟩
  obtain ⟨-, -, -, same | ⟨other, -⟩⟩ := refused_operations assigned
  · exact same
  · cases other

theorem refused_derive_leaves_bytes : ∃ d : Definition, d.Reached ∧
    (d.attempt .derive).2 = .error (.variableParent "S2" "BB") ∧
    (d.value? "S1").map Value.bytes = some [] ∧
    ((d.attempt .derive).1.value? "S1").map Value.bytes = some [0x58] :=
  ⟨_, .assigned (.new (rfl : ofTypes .openSystem Sample.halfComposable = .ok _)) "AA"
    (.text ['X']) rfl, rfl, by decide, by decide⟩

end Definition

end RecordCodec
