import RecordCodec.Proofs.Text.Words
import RecordCodec.Search.Literal

/-!
Taking quoted literals out of a query. A query is a row of pieces, plain texts and quoted literals;
extraction keeps the plain texts, numbers the literals and loses nothing of either.
-/
namespace RecordCodec.Query

/-- Whether a literal ends at the quote behind its text. `escaped` says whether a backslash stands
in front of the text. -/
def endsAtQuote (escaped : Bool) : List Char → Bool
  | [] => !escaped
  | c :: rest => (escaped || c != '\'') && endsAtQuote (c == '\\') rest

/-- The text of a literal as it is written: every quote in it follows a backslash, and no backslash
stands in front of the closing quote. -/
structure WellQuoted (raw : List Char) : Prop where
  quotes_escaped : ∀ before after, raw = before ++ '\'' :: after → before.getLast? = some '\\'
  open_end : raw.getLast? ≠ some '\\'

theorem endsAtQuote_append (escaped : Bool) (before rest : List Char) {c : Char} :
    endsAtQuote escaped (before ++ c :: rest) = true →
      c ≠ '\'' ∨ before.getLast? = some '\\' ∨ before = [] ∧ escaped = true := by
  induction before generalizing escaped with
  | nil =>
    intro h
    simp only [List.nil_append, endsAtQuote, Bool.and_eq_true, Bool.or_eq_true, bne_iff_ne] at h
    rcases h.1 with h | h
    · exact .inr (.inr ⟨rfl, h⟩)
    · exact .inl h
  | cons d before ih =>
    intro h
    simp only [List.cons_append, endsAtQuote, Bool.and_eq_true] at h
    rcases ih (d == '\\') h.2 with plain | slash | ⟨rfl, slash⟩
    · exact .inl plain
    · exact .inr (.inl (by simp [List.getLast?_cons, slash]))
    · exact .inr (.inl (by simpa using slash))

theorem endsAtQuote_of (escaped : Bool) (raw : List Char)
    (quotes : ∀ before after, raw = before ++ '\'' :: after →
      before.getLast? = some '\\' ∨ before = [] ∧ escaped = true)
    (last : raw.getLast? ≠ some '\\') (given : raw = [] → escaped = false) :
    endsAtQuote escaped raw = true := by
  induction raw generalizing escaped with
  | nil => simp [endsAtQuote, given rfl]
  | cons c raw ih =>
    have head : escaped = true ∨ c ≠ '\'' := by
      by_cases quote : c = '\''
      · rcases quotes [] raw (by simp [quote]) with h | h
        · cases h
        · exact .inl h.2
      · exact .inr quote
    have tail : endsAtQuote (c == '\\') raw = true := by
      apply ih
      · intro before after split
        rcases quotes (c :: before) after (by simp [split]) with h | ⟨h, -⟩
        · cases before with
          | nil => exact .inr ⟨rfl, by simpa using h⟩
          | cons d before => exact .inl (by simpa [List.getLast?_cons_cons] using h)
        · cases h
      · intro h
        cases raw with
        | nil => cases h
        | cons d raw => exact last (by simpa [List.getLast?_cons_cons] using h)
      · intro empty
        subst empty
        simpa using last
    simp [endsAtQuote, head, tail]

theorem endsAtQuote_iff (raw : List Char) : endsAtQuote false raw = true ↔ WellQuoted raw := by
  constructor
  · intro h
    refine ⟨?_, ?_⟩
    · rintro before after rfl
      rcases endsAtQuote_append false before after h with plain | slash | ⟨-, impossible⟩
      · exact absurd rfl plain
      · exact slash
      · cases impossible
    · intro last
      obtain ⟨before, rfl⟩ : ∃ before, raw = before ++ ['\\'] :=
        List.getLast?_eq_some_iff.mp last
      have closed : ∀ (escaped : Bool) (before : List Char),
          endsAtQuote escaped (before ++ ['\\']) = false := by
        intro escaped before
        induction before generalizing escaped with
        | nil => simp [endsAtQuote]
        | cons c before ih => simp [endsAtQuote, ih]
      rw [closed] at h
      cases h
  · intro h
    exact endsAtQuote_of false raw (fun before after split => .inl (h.quotes_escaped _ _ split))
      h.open_end (fun _ => rfl)

inductive Piece where
  /-- A text outside of literals. -/
  | plain (s : List Char)
  /-- A literal, by the text between its quotes. -/
  | literal (raw : List Char)

namespace Piece

def text : Piece → List Char
  | plain s => s
  | literal raw => '\'' :: (raw ++ ['\''])

def Valid : Piece → Prop
  | plain s => '\'' ∉ s
  | literal raw => WellQuoted raw

def textOf (pieces : List Piece) : List Char :=
  pieces.flatMap text

def placed (n : Nat) : List Piece → List Char
  | [] => []
  | plain s :: rest => s ++ placed n rest
  | literal _ :: rest => placeholder (n + 1) ++ placed (n + 1) rest

def literals : List Piece → List (List Char)
  | [] => []
  | plain _ :: rest => literals rest
  | literal raw :: rest => raw :: literals rest

@[simp] theorem literals_append (as bs : List Piece) :
    literals (as ++ bs) = literals as ++ literals bs := by
  induction as with
  | nil => rfl
  | cons a as ih => cases a <;> simp [literals, ih]

theorem placed_append (n : Nat) (as bs : List Piece) :
    placed n (as ++ bs) = placed n as ++ placed (n + (literals as).length) bs := by
  induction as generalizing n with
  | nil => rfl
  | cons a as ih =>
    cases a with
    | plain s => simp [placed, literals, ih]
    | literal raw =>
      have count : n + 1 + (literals as).length = n + ((literals as).length + 1) := by omega
      simp [placed, literals, ih, count]

end Piece

theorem outside_plain {s : List Char} (hs : '\'' ∉ s) (n : Nat) (rest : List Char) :
    outside n (s ++ rest) =
      (outside n rest).map fun (search, constants) => (s ++ search, constants) := by
  induction s with
  | nil =>
    rw [List.nil_append]
    cases outside n rest <;> rfl
  | cons c s ih =>
    have head : c ≠ '\'' := fun h => hs (h ▸ List.mem_cons_self ..)
    have tail := ih fun h => hs (List.mem_cons_of_mem _ h)
    rw [List.cons_append, outside, if_neg head, tail]
    cases outside n rest <;> rfl

theorem inside_literal (n : Nat) (opening rest raw : List Char) {escaped : Bool}
    (closed : endsAtQuote escaped raw = true) (before : List Char) :
    inside n opening before escaped (raw ++ '\'' :: rest) =
      (outside n rest).map fun (search, constants) =>
        (placeholder n ++ search, (before.reverse ++ raw) :: constants) := by
  induction raw generalizing escaped before with
  | nil =>
    have unescaped : escaped = false := by simpa [endsAtQuote] using closed
    simp [inside, unescaped]
  | cons c raw ih =>
    simp only [endsAtQuote, Bool.and_eq_true, Bool.or_eq_true, bne_iff_ne] at closed
    have inner : ¬(c = '\'' ∧ escaped = false) := by
      rintro ⟨quote, unescaped⟩
      rcases closed.1 with h | h
      · rw [unescaped] at h; cases h
      · exact h quote
    rw [List.cons_append, inside, if_neg inner, ih closed.2]
    simp

theorem outside_literal {raw : List Char} (h : WellQuoted raw) (n : Nat) (rest : List Char) :
    outside n ('\'' :: (raw ++ '\'' :: rest)) =
      (outside (n + 1) rest).map fun (search, constants) =>
        (placeholder (n + 1) ++ search, raw :: constants) := by
  rw [outside, if_pos rfl, inside_literal _ _ _ _ ((endsAtQuote_iff raw).mpr h)]
  simp

theorem outside_textOf {pieces : List Piece} (valid : ∀ p ∈ pieces, p.Valid) (n : Nat) :
    outside n (Piece.textOf pieces) = .ok (Piece.placed n pieces, Piece.literals pieces) := by
  induction pieces generalizing n with
  | nil => rfl
  | cons p pieces ih =>
    have head := valid p (List.mem_cons_self ..)
    have tail := fun m => ih (fun q hq => valid q (List.mem_cons_of_mem _ hq)) m
    cases p with
    | plain s =>
      have h : Piece.textOf (.plain s :: pieces) = s ++ Piece.textOf pieces := rfl
      rw [h, outside_plain head, tail]
      rfl
    | literal raw =>
      have h : Piece.textOf (.literal raw :: pieces) =
          '\'' :: (raw ++ '\'' :: Piece.textOf pieces) := by
        simp [Piece.textOf, Piece.text]
      rw [h, outside_literal head, tail]
      rfl

theorem ofText_textOf {pieces : List Piece} (valid : ∀ p ∈ pieces, p.Valid) :
    ofText (Piece.textOf pieces) =
      .ok ⟨Text.collapse (Piece.placed 0 pieces), Piece.literals pieces⟩ := by
  rw [ofText, outside_textOf valid]
  rfl

end RecordCodec.Query
