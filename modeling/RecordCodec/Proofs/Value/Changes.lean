import RecordCodec.Proofs.Value.Shape

/-!
Runs of operations. An operation changes a value where a path leads to it. Whether it succeeds or
fails, a law for values is kept by every operation, and so by every run, that adds elements only to
structures which the law lets grow.
-/
namespace RecordCodec.Value

/-- What can be done to a value of a definition where it stands. -/
inductive Change where
  | assign (s : Scalar)
  | push (s : Scalar)
  /-- Creates the occurrences up to number `index`. -/
  | reach (index : Nat)
  | parse (r : Request) (q : ByteQueue)

namespace Change

def apply [Libraries] (change : Change) (v : Value) : Value :=
  match change with
  | .assign s => ((v.assign s).toOption).getD v
  | .push s => ((v.push s).toOption).getD v
  | .reach index => v.withOccurrence index
  | .parse r q => (v.parse r q).1

def outcome [Libraries] (change : Change) (v : Value) : Except FieldFault Unit :=
  match change with
  | .assign s => (v.assign s).map fun _ => ()
  | .push s => (v.push s).map fun _ => ()
  | .reach _ => .ok ()
  | .parse r q => (v.parse r q).2.map fun _ => ()

end Change

structure Operation where
  path : List PathStep
  change : Change

variable [Libraries]

/-- The value after an operation, with the field of the value that was changed and the outcome
there. -/
def Operation.apply (operation : Operation) (v : Value) :
    Option (FieldType × Except FieldFault Unit) × Value :=
  modifyAt (fun v => ((v.type, operation.change.outcome v), operation.change.apply v))
    operation.path v

def after (v : Value) (operations : List Operation) : Value :=
  operations.foldl (fun v operation => (operation.apply v).2) v

def Spares (spared : FieldType → Prop) (v : Value) : List Operation → Prop
  | [] => True
  | operation :: rest =>
    (∀ s t, operation.change = .push s → (operation.apply v).1 = some (t, .ok ()) → ¬spared t) ∧
      Spares spared (operation.apply v).2 rest

theorem spares_none (v : Value) (operations : List Operation) :
    v.Spares (fun _ => False) operations := by
  induction operations generalizing v with
  | nil => trivial
  | cons operation rest ih => exact ⟨fun _ _ _ _ => not_false, ih _⟩

variable {law : Law} {v : Value}

theorem obeys_apply (lasting : law.Lasting) (change : Change) (obeys : v.Obeys law)
    (grows : ∀ s, change = .push s → change.outcome v = .ok () → law.Grows v.type) :
    (change.apply v).Obeys law ∧ (change.apply v).place = v.place := by
  cases change with
  | assign s =>
    cases assigned : v.assign s with
    | error fault => simpa [Change.apply, assigned, Except.toOption] using obeys
    | ok v' =>
      simpa [Change.apply, assigned, Except.toOption] using obeys_assign lasting obeys assigned
  | push s =>
    cases pushed : v.push s with
    | error fault => simpa [Change.apply, pushed, Except.toOption] using obeys
    | ok v' =>
      have allowed := grows s rfl (by simp [Change.outcome, pushed, Except.map])
      simpa [Change.apply, pushed, Except.toOption] using obeys_push lasting obeys allowed pushed
  | reach index => exact obeys_withOccurrence lasting index obeys
  | parse r q => exact obeys_parse lasting q obeys

theorem Operation.obeys_apply (lasting : law.Lasting) (operation : Operation) (obeys : v.Obeys law)
    (grows : ∀ s t, operation.change = .push s → (operation.apply v).1 = some (t, .ok ()) →
      law.Grows t) :
    (operation.apply v).2.Obeys law ∧ (operation.apply v).2.place = v.place := by
  have kept : law.KeptBy
      (fun made => ∀ s, operation.change = .push s → made.2 = .ok () → law.Grows made.1)
      fun v => ((v.type, operation.change.outcome v), operation.change.apply v) :=
    fun v obeys grows => Value.obeys_apply lasting operation.change obeys grows
  refine keptBy_modifyAt lasting kept operation.path v obeys ?_
  rintro ⟨t, outcome⟩ made s pushed accepted
  exact grows s t pushed (made.trans (by rw [show outcome = .ok () from accepted]))

/-- A law that lets structures grow holds after every run that spares those of other fields. -/
theorem obeys_after (lasting : law.Lasting) {spared : FieldType → Prop}
    (grows : ∀ t, ¬spared t → law.Grows t) {operations : List Operation}
    (obeys : v.Obeys law) (spares : v.Spares spared operations) :
    (v.after operations).Obeys law ∧ (v.after operations).place = v.place := by
  induction operations generalizing v with
  | nil => exact ⟨obeys, rfl⟩
  | cons operation rest ih =>
    obtain ⟨here, later⟩ := spares
    obtain ⟨kept, same⟩ := operation.obeys_apply lasting obeys fun s t pushed made =>
      grows t (here s t pushed made)
    obtain ⟨reached, same'⟩ := ih kept later
    exact ⟨reached, same'.trans same⟩

theorem obeys_reached (lasting : law.Lasting) (grows : ∀ t, law.Grows t) (t : FieldType)
    (platform : Platform) (i j : Nat) (operations : List Operation) :
    ((t.freshAt platform i j).after operations).Obeys law ∧
      ((t.freshAt platform i j).after operations).place = ⟨t, platform, i, j⟩ := by
  obtain ⟨obeys, same⟩ := obeys_after lasting (fun u _ => grows u)
    (t.obeys_freshAt lasting platform i j) (spares_none _ operations)
  exact ⟨obeys, same.trans (t.place_freshAt platform i j)⟩

end RecordCodec.Value
