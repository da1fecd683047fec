import Mathlib.Data.List.Forall2

/-!
Outcomes of steps that can fail: what a success or a failure of several steps says of each of them.
-/
namespace RecordCodec.Outcome

variable {ε α β : Type}

theorem bind_ok {x : Except ε α} {f : α → Except ε β} {b : β} :
    (x >>= f) = .ok b ↔ ∃ a, x = .ok a ∧ f a = .ok b := by
  cases x with
  | error fault =>
    constructor
    · intro h
      cases h
    · rintro ⟨_, h, _⟩
      cases h
  | ok a =>
    constructor
    · intro h
      exact ⟨a, rfl, h⟩
    · rintro ⟨_, h, same⟩
      cases h
      exact same

theorem bind_error {x : Except ε α} {f : α → Except ε β} {fault : ε} :
    (x >>= f) = .error fault ↔ x = .error fault ∨ ∃ a, x = .ok a ∧ f a = .error fault := by
  cases x with
  | error first =>
    constructor
    · intro h
      cases h
      exact .inl rfl
    · rintro (h | ⟨_, h, _⟩)
      · cases h
        rfl
      · cases h
  | ok a =>
    constructor
    · intro h
      exact .inr ⟨a, rfl, h⟩
    · rintro (h | ⟨_, h, same⟩)
      · cases h
      · cases h
        exact same

theorem map_ok {x : Except ε α} {f : α → β} {b : β} :
    x.map f = .ok b ↔ ∃ a, x = .ok a ∧ f a = b := by
  cases x with
  | error fault =>
    constructor
    · intro h
      cases h
    · rintro ⟨_, h, _⟩
      cases h
  | ok a =>
    constructor
    · intro h
      cases h
      exact ⟨a, rfl, rfl⟩
    · rintro ⟨_, h, rfl⟩
      cases h
      rfl

theorem mapError_ok {δ : Type} {x : Except ε α} {f : ε → δ} {a : α} :
    x.mapError f = .ok a ↔ x = .ok a := by
  cases x with
  | error fault =>
    constructor
    · intro h
      cases h
    · intro h
      cases h
  | ok a' =>
    constructor
    · intro h
      cases h
      rfl
    · intro h
      cases h
      rfl

theorem map_error {x : Except ε α} {f : α → β} {fault : ε} :
    x.map f = .error fault ↔ x = .error fault := by
  cases x with
  | error first => exact Iff.of_eq (by rw [Except.map, Except.error.injEq, Except.error.injEq])
  | ok a => exact iff_of_false nofun nofun

theorem mapError_error {δ : Type} {x : Except ε α} {f : ε → δ} {fault : δ} :
    x.mapError f = .error fault ↔ ∃ first, x = .error first ∧ f first = fault := by
  cases x with
  | error first => simp [Except.mapError]
  | ok a => exact iff_of_false nofun fun ⟨_, h, _⟩ => nomatch h

theorem toOption_eq_some {x : Except ε α} {a : α} : x.toOption = some a ↔ x = .ok a := by
  cases x with
  | error fault => exact ⟨nofun, nofun⟩
  | ok a' => simp [Except.toOption]

theorem unless_ok {p : Prop} [Decidable p] {fault : ε} {x : Except ε α} {a : α} :
    (if p then .error fault else x) = .ok a ↔ ¬ p ∧ x = .ok a := by
  by_cases refused : p
  · simp [refused]
  · simp [refused]

theorem unless_error {p : Prop} [Decidable p] {first fault : ε} {x : Except ε α} :
    (if p then .error first else x) = .error fault ↔ p ∧ first = fault ∨ ¬p ∧ x = .error fault := by
  by_cases refused : p
  · simp [refused]
  · simp [refused]

theorem when_ok {p : Prop} [Decidable p] {fault : ε} {x : Except ε α} {a : α} :
    (if p then x else .error fault) = .ok a ↔ p ∧ x = .ok a := by
  by_cases accepted : p
  · simp [accepted]
  · simp [accepted]

theorem mapM_ok {f : α → Except ε β} {as : List α} {bs : List β} (h : as.mapM f = .ok bs) :
    (∀ b ∈ bs, ∃ a ∈ as, f a = .ok b) ∧ ∀ a ∈ as, ∃ b ∈ bs, f a = .ok b := by
  induction as generalizing bs with
  | nil =>
    cases h
    simp
  | cons a as ih =>
    rw [List.mapM_cons] at h
    obtain ⟨b, hb, h⟩ := bind_ok.mp h
    obtain ⟨rest, hrest, h⟩ := bind_ok.mp h
    cases h
    obtain ⟨from_, into⟩ := ih hrest
    constructor
    · intro c hc
      rcases List.mem_cons.mp hc with rfl | later
      · exact ⟨a, List.mem_cons_self .., hb⟩
      · obtain ⟨d, hd, same⟩ := from_ c later
        exact ⟨d, List.mem_cons_of_mem _ hd, same⟩
    · intro c hc
      rcases List.mem_cons.mp hc with rfl | later
      · exact ⟨b, List.mem_cons_self .., hb⟩
      · obtain ⟨d, hd, same⟩ := into c later
        exact ⟨d, List.mem_cons_of_mem _ hd, same⟩

theorem length_of_mapM {f : α → Except ε β} {as : List α} {bs : List β}
    (h : as.mapM f = .ok bs) : bs.length = as.length := by
  induction as generalizing bs with
  | nil =>
    cases h
    rfl
  | cons a as ih =>
    rw [List.mapM_cons] at h
    obtain ⟨b, -, h⟩ := bind_ok.mp h
    obtain ⟨rest, hrest, h⟩ := bind_ok.mp h
    cases h
    rw [List.length_cons, List.length_cons, ih hrest]

theorem mapM_error_first {f : α → Except ε β} {as : List α} {fault : ε}
    (h : as.mapM f = .error fault) : ∃ before a behind, as = before ++ a :: behind ∧
      (∀ a ∈ before, ∃ b, f a = .ok b) ∧ f a = .error fault := by
  induction as with
  | nil => cases h
  | cons a as ih =>
    rw [List.mapM_cons] at h
    rcases bind_error.mp h with here | ⟨b, first, h⟩
    · exact ⟨[], a, as, rfl, List.forall_mem_nil _, here⟩
    · rcases bind_error.mp h with later | ⟨_, -, h⟩
      · obtain ⟨before, c, behind, rfl, passed, failed⟩ := ih later
        exact ⟨a :: before, c, behind, rfl, List.forall_mem_cons.mpr ⟨⟨b, first⟩, passed⟩, failed⟩
      · cases h

theorem mapM_error {f : α → Except ε β} {as : List α} {fault : ε}
    (h : as.mapM f = .error fault) : ∃ a ∈ as, f a = .error fault := by
  obtain ⟨before, a, behind, rfl, -, failed⟩ := mapM_error_first h
  exact ⟨a, List.mem_append_right _ (List.mem_cons_self ..), failed⟩

theorem exists_mapM_ok_iff {f : α → Except ε β} {as : List α} :
    (∃ bs, as.mapM f = .ok bs) ↔ ∀ a ∈ as, ∃ b, f a = .ok b := by
  constructor
  · rintro ⟨bs, h⟩ a ha
    obtain ⟨b, -, hb⟩ := (mapM_ok h).2 a ha
    exact ⟨b, hb⟩
  · intro each
    cases h : as.mapM f with
    | ok bs => exact ⟨bs, rfl⟩
    | error fault =>
      obtain ⟨a, ha, failed⟩ := mapM_error h
      obtain ⟨b, hb⟩ := each a ha
      rw [failed] at hb
      cases hb

theorem mapM_ok_iff {f : α → Except ε β} {accepts : α → Prop} {result : α → β} {as : List α}
    (spec : ∀ a ∈ as, ∀ b, f a = .ok b ↔ accepts a ∧ result a = b) {bs : List β} :
    as.mapM f = .ok bs ↔ (∀ a ∈ as, accepts a) ∧ as.map result = bs := by
  induction as generalizing bs with
  | nil => simp [pure, Except.pure]
  | cons a as ih =>
    obtain ⟨first, rest⟩ := List.forall_mem_cons.mp spec
    rw [List.mapM_cons, bind_ok, List.forall_mem_cons, List.map_cons]
    constructor
    · rintro ⟨b, here, h⟩
      obtain ⟨bs, later, same⟩ := bind_ok.mp h
      cases same
      obtain ⟨accepted, rfl⟩ := (first b).mp here
      obtain ⟨all, rfl⟩ := (ih rest).mp later
      exact ⟨⟨accepted, all⟩, rfl⟩
    · rintro ⟨⟨accepted, all⟩, rfl⟩
      exact ⟨_, (first _).mpr ⟨accepted, rfl⟩, bind_ok.mpr ⟨_, (ih rest).mpr ⟨all, rfl⟩, rfl⟩⟩

theorem mapM_congr {f g : α → Except ε β} {as : List α} (same : ∀ a ∈ as, f a = g a) :
    as.mapM f = as.mapM g := by
  induction as with
  | nil => rfl
  | cons a as ih =>
    obtain ⟨here, later⟩ := List.forall_mem_cons.mp same
    rw [List.mapM_cons, List.mapM_cons, here, ih later]

theorem mapM_forall₂ {γ : Type} {f : α → Except ε β} {g : α → Except ε γ} {R : β → γ → Prop}
    (each : ∀ a b, f a = .ok b → ∃ c, g a = .ok c ∧ R b c) {as : List α} {bs : List β}
    (h : as.mapM f = .ok bs) : ∃ cs, as.mapM g = .ok cs ∧ List.Forall₂ R bs cs := by
  induction as generalizing bs with
  | nil =>
    cases h
    exact ⟨[], rfl, .nil⟩
  | cons a as ih =>
    rw [List.mapM_cons] at h
    obtain ⟨b, hb, h⟩ := bind_ok.mp h
    obtain ⟨rest, hrest, h⟩ := bind_ok.mp h
    cases h
    obtain ⟨c, hc, related⟩ := each a b hb
    obtain ⟨cs, hcs, all⟩ := ih hrest
    refine ⟨c :: cs, ?_, .cons related all⟩
    rw [List.mapM_cons, hc, hcs]
    rfl

theorem mapM_of_forall₂ {γ : Type} {f : α → Except ε β} {R : β → γ → Prop} {as : List α}
    {cs : List γ} (each : List.Forall₂ (fun a c => ∃ b, f a = .ok b ∧ R b c) as cs) :
    ∃ bs, as.mapM f = .ok bs ∧ List.Forall₂ R bs cs := by
  induction each with
  | nil => exact ⟨[], rfl, .nil⟩
  | cons here _ ih =>
    obtain ⟨b, hb, related⟩ := here
    obtain ⟨bs, hbs, all⟩ := ih
    refine ⟨b :: bs, ?_, .cons related all⟩
    rw [List.mapM_cons, hb, hbs]
    rfl

theorem mapM_flatMap {γ : Type} (f : α → List β) (g : β → Except ε (List γ)) (as : List α) :
    ((as.flatMap f).mapM g).map List.flatten =
      (as.mapM fun a => ((f a).mapM g).map List.flatten).map List.flatten := by
  induction as with
  | nil => rfl
  | cons a as ih =>
    rw [List.flatMap_cons, List.mapM_append, List.mapM_cons]
    cases (f a).mapM g with
    | error fault => rfl
    | ok first =>
      cases all : (as.flatMap f).mapM g <;>
        cases parts : as.mapM fun a => ((f a).mapM g).map List.flatten <;>
        simp_all [bind, Except.bind, pure, Except.pure, Except.map]

theorem getElem?_of_mapM {f : α → Except ε β} {as : List α} {bs : List β}
    (h : as.mapM f = .ok bs) {i : Nat} {a : α} (listed : as[i]? = some a) :
    ∃ b, bs[i]? = some b ∧ f a = .ok b := by
  induction as generalizing bs i with
  | nil => cases listed
  | cons a' as ih =>
    rw [List.mapM_cons] at h
    obtain ⟨b, hb, h⟩ := bind_ok.mp h
    obtain ⟨rest, hrest, h⟩ := bind_ok.mp h
    cases h
    cases i with
    | zero =>
      cases listed
      exact ⟨b, rfl, hb⟩
    | succ i => exact ih hrest listed

def paired (x : α × Except ε β) : Except ε (α × β) :=
  x.2.map fun b => (x.1, b)

theorem paired_ok {x : α × Except ε β} {a : α} {b : β} :
    paired x = .ok (a, b) ↔ x = (a, .ok b) := by
  obtain ⟨a', outcome⟩ := x
  constructor
  · intro h
    obtain ⟨b', rfl, same⟩ := map_ok.mp h
    cases same
    rfl
  · intro h
    cases h
    rfl

theorem paired_error {x : α × Except ε β} {fault : ε} :
    paired x = .error fault ↔ x.2 = .error fault := by
  obtain ⟨a, outcome | b⟩ := x
  · constructor <;>
      · intro h
        cases h
        rfl
  · constructor <;>
      · intro h
        cases h

end RecordCodec.Outcome
