import RecordCodec.Proofs.Search.AlikeOperands

/-!
Texts and their marks. A literal ends at the first quote that no backslash stands before, so that a
text can be read as marks in one way only. What a query says of one of its predicates can therefore
be told from the text of the predicate alone.
-/
namespace RecordCodec

namespace Mark

/-- A mark as the reading of a text gives it: a character outside of literals is no quote, and a
literal ends where it is closed. -/
def Closed : Mark → Prop
  | char c => c ≠ '\''
  | literal _ raw => Query.endsAtQuote false raw = true

theorem text_ne_nil (m : Mark) : m.text ≠ [] := by
  cases m <;> simp [text]

theorem flatMap_char (s : List Char) : (s.map char).flatMap text = s := by
  rw [List.flatMap_map]
  exact List.flatMap_singleton' s

theorem place_char (s : List Char) : place (s.map char) = s := by
  rw [place, List.flatMap_map]
  exact List.flatMap_singleton' s

theorem not_endsAtQuote {escaped : Bool} (ends : Query.endsAtQuote escaped [] = true)
    (more : List Char) : ¬Query.endsAtQuote escaped ('\'' :: more) = true := by
  have unescaped : escaped = false := by simpa [Query.endsAtQuote] using ends
  simp [Query.endsAtQuote, unescaped]

theorem endsAtQuote_unique {escaped : Bool} {raw raw' rest rest' : List Char}
    (closed : Query.endsAtQuote escaped raw = true)
    (closed' : Query.endsAtQuote escaped raw' = true)
    (same : raw ++ '\'' :: rest = raw' ++ '\'' :: rest') : raw = raw' := by
  -- Were one of them shorter, its closing quote would stand inside of the other.
  induction raw generalizing escaped raw' with
  | nil =>
    cases raw' with
    | nil => rfl
    | cons c raw' =>
      obtain ⟨rfl, -⟩ := List.cons.inj same
      exact absurd closed' (not_endsAtQuote closed raw')
  | cons c raw ih =>
    cases raw' with
    | nil =>
      obtain ⟨rfl, -⟩ := List.cons.inj same
      exact absurd closed (not_endsAtQuote closed' raw)
    | cons d raw' =>
      obtain ⟨rfl, behind⟩ := List.cons.inj same
      simp only [Query.endsAtQuote, Bool.and_eq_true] at closed closed'
      rw [ih closed.2 closed'.2 behind]

theorem sameText_of_text {as bs : List Mark} (closed : ∀ m ∈ as, m.Closed)
    (closed' : ∀ m ∈ bs, m.Closed) (same : as.flatMap text = bs.flatMap text) :
    SameText as bs := by
  induction as generalizing bs with
  | nil =>
    cases bs with
    | nil => rfl
    | cons b bs => exact absurd (List.append_eq_nil_iff.mp same.symm).1 b.text_ne_nil
  | cons a as ih =>
    cases bs with
    | nil => exact absurd (List.append_eq_nil_iff.mp same).1 a.text_ne_nil
    | cons b bs =>
      obtain ⟨here, later⟩ := List.forall_mem_cons.mp closed
      obtain ⟨here', later'⟩ := List.forall_mem_cons.mp closed'
      rw [List.flatMap_cons, List.flatMap_cons] at same
      suffices first : a.text = b.text by
        rw [first] at same
        rw [SameText, List.map_cons, List.map_cons, first,
          ih later later' (List.append_cancel_left same)]
      -- Only a literal starts with a quote.
      cases a with
      | char c =>
        cases b with
        | char d => rw [(List.cons.inj same).1]
        | literal number raw => exact absurd (List.cons.inj same).1 here
      | literal number raw =>
        cases b with
        | char d => exact absurd (List.cons.inj same).1.symm here'
        | literal number' raw' =>
          have inner : raw ++ '\'' :: as.flatMap text = raw' ++ '\'' :: bs.flatMap text := by
            simpa [text] using same
          rw [text, endsAtQuote_unique here here' inner, text]

end Mark

namespace Query

open Mark

mutual

theorem closed_outside {n : Nat} {s search : List Char} {constants : List (List Char)}
    (h : outside n s = .ok (search, constants)) : ∀ m ∈ marksOutside n s, m.Closed := by
  match s with
  | [] => exact fun m listed => by cases listed
  | c :: rest =>
    rw [outside] at h
    rw [marksOutside]
    split at h
    · rename_i quote
      rw [if_pos quote]
      exact closed_inside h fun raw => rfl
    · rename_i plain
      rw [if_neg plain]
      obtain ⟨⟨search, constants⟩, read, -⟩ := Outcome.map_ok.mp h
      exact List.forall_mem_cons.mpr ⟨plain, closed_outside read⟩

theorem closed_inside {n : Nat} {opening literal rest search : List Char} {escaped : Bool}
    {constants : List (List Char)}
    (h : inside n opening literal escaped rest = .ok (search, constants))
    (read : ∀ raw, endsAtQuote false (literal.reverse ++ raw) = endsAtQuote escaped raw) :
    ∀ m ∈ marksInside n literal escaped rest, m.Closed := by
  match rest with
  | [] => cases h
  | c :: rest =>
    rw [inside] at h
    rw [marksInside]
    split at h
    · rename_i closing
      rw [if_pos closing]
      obtain ⟨⟨search, constants⟩, behind, -⟩ := Outcome.map_ok.mp h
      refine List.forall_mem_cons.mpr ⟨?_, closed_outside behind⟩
      have ends := read []
      rw [List.append_nil, closing.2] at ends
      exact ends
    · rename_i more
      rw [if_neg more]
      refine closed_inside h fun raw => ?_
      have passes : (escaped || c != '\'') = true := by
        rw [Bool.or_eq_true, bne_iff_ne]
        by_contra stops
        rw [not_or, not_not, Bool.not_eq_true] at stops
        exact more ⟨stops.2, stops.1⟩
      rw [List.reverse_cons, List.append_assoc, read, List.singleton_append, endsAtQuote, passes,
        Bool.true_and]

end

theorem closed_marks {s : List Char} {q : Query} (read : ofText s = .ok q) :
    ∀ m ∈ marksOutside 0 s, m.Closed := by
  obtain ⟨_, taken, -⟩ := Outcome.map_ok.mp read
  exact closed_outside taken

theorem closed_predicateMarks {s : List Char} {q : Query} (read : ofText s = .ok q)
    {row : List Mark} (listed : row ∈ predicateMarks s) : ∀ m ∈ row, m.Closed := by
  intro m inside
  rcases mem_predicateMarks listed inside with rfl | inside
  · exact (by decide : ' ' ≠ '\'')
  · exact closed_marks read m inside

end Query

end RecordCodec
