import RecordCodec.Request

/-!
The calls of a request, what several values need together, and the texts of a request. Commas are
set between texts only where none stands yet, so texts that end in something else are joined by
exactly one comma each.
-/
namespace RecordCodec

theorem FollowUp.join_assoc (a b c : FollowUp) : (a.join b).join c = a.join (b.join c) := by
  cases a <;> cases b <;> cases c <;> rfl

theorem FollowUp.none_join (a : FollowUp) : FollowUp.none.join a = a := by
  cases a <;> rfl

def Request.atCall (r : Request) (k : Nat) : Request :=
  { r with call := k }

@[simp] theorem Request.isFollowUp_atCall_zero (r : Request) :
    (r.atCall 0).isFollowUp = false := rfl

@[simp] theorem Request.isFollowUp_atCall_succ (r : Request) (k : Nat) :
    (r.atCall (k + 1)).isFollowUp = true := by
  simp [isFollowUp, atCall]

theorem Request.chunk_pos (r : Request) : 0 < r.chunk :=
  Nat.lt_of_lt_of_le Nat.one_pos (Nat.le_max_right ..)

def Token.ofPart (name : String) (first length : Nat) : Token :=
  ⟨s!"{name}({first},{length})", length⟩

namespace Token

def Closed (text : String) : Prop :=
  text.toList.getLast?.any (· != ',') = true

instance : DecidablePred Closed := fun text =>
  inferInstanceAs (Decidable (text.toList.getLast?.any (· != ',') = true))

theorem closed_iff {text : String} : Closed text ↔ ∃ s c, text.toList = s ++ [c] ∧ c ≠ ',' := by
  constructor
  · intro closed
    unfold Closed at closed
    cases last : text.toList.getLast? with
    | none => simp [last] at closed
    | some c =>
      obtain ⟨s, same⟩ := List.getLast?_eq_some_iff.mp last
      exact ⟨s, c, same, by simpa [last] using closed⟩
  · rintro ⟨s, c, same, plain⟩
    simp [Closed, same, plain]

theorem Closed.append {text : String} (closed : Closed text) (before : String) :
    Closed (before ++ text) := by
  obtain ⟨s, c, same, plain⟩ := closed_iff.mp closed
  exact closed_iff.mpr ⟨before.toList ++ s, c, by simp [same], plain⟩

theorem closed_singleton {c : Char} (plain : c ≠ ',') : Closed (String.singleton c) :=
  closed_iff.mpr ⟨[], c, by simp, plain⟩

theorem closed_ofPart (name : String) (first length : Nat) :
    Closed (ofPart name first length).text := by
  exact Closed.append (show Closed ")" by decide) _

theorem separate_closed {text : String} (closed : Closed text) : separate text = text ++ "," := by
  obtain ⟨s, c, same, plain⟩ := closed_iff.mp closed
  have given : text.isEmpty = false := by
    apply String.isEmpty_eq_false_iff.mpr
    rintro rfl
    simp at same
  have open_ : text.endsWith "," = false := by
    rw [String.endsWith_eq_endsWith_toSlice, String.Slice.endsWith_string_eq_false_iff]
    rintro ⟨before, h⟩
    have last : c = ',' := by simpa [same] using (congrArg List.getLast? h).symm
    exact plain last
  rw [separate, given, open_]
  rfl

theorem appendTexts_behind {out : String} (closed : Closed out) (texts : List String)
    (all : ∀ t ∈ texts, Closed t) : appendTexts out texts = ",".intercalate (out :: texts) := by
  induction texts generalizing out with
  | nil => simp [appendTexts]
  | cons t rest ih =>
    have later := fun u hu => all u (List.mem_cons_of_mem t hu)
    have here := (all t (List.mem_cons_self ..)).append (out ++ ",")
    calc appendTexts out (t :: rest)
        = appendTexts (separate out ++ t) rest := rfl
      _ = appendTexts (out ++ "," ++ t) rest := by rw [separate_closed closed]
      _ = ",".intercalate ((out ++ "," ++ t) :: rest) := ih here later
      _ = ",".intercalate (out :: t :: rest) := by
        rw [String.intercalate_cons_append, String.intercalate_cons_cons, String.append_assoc]

theorem appendTexts_empty (texts : List String) (all : ∀ t ∈ texts, Closed t) :
    appendTexts "" texts = ",".intercalate texts := by
  cases texts with
  | nil => rfl
  | cons t rest =>
    have first : separate "" ++ t = t := by
      have empty : separate "" = "" := rfl
      rw [empty, String.empty_append]
    have behind := appendTexts_behind (all t (List.mem_cons_self ..)) rest
      fun u hu => all u (List.mem_cons_of_mem t hu)
    rw [← behind, ← first]
    simp [appendTexts, first]

end Token

end RecordCodec
