import RecordCodec.Proofs.Search.Runs

/-!
Queries as plain texts with quoted literals between them. A text is a query exactly if it can be cut
so with every literal closed; there is only one way to cut it, and nothing of it gets lost.
-/
namespace RecordCodec

namespace Text

/-- A text with one space for each run of white space; `blank` says whether a blank is in front. -/
def squeeze (blank : Bool) : List Char → List Char
  | [] => []
  | c :: rest =>
    if isBlank c then
      if blank then squeeze true rest else ' ' :: squeeze true rest
    else c :: squeeze false rest

theorem trimEnd_cons (c : Char) (s : List Char) :
    trimEnd (c :: s) = if isBlank c && (trimEnd s).isEmpty then [] else c :: trimEnd s := by
  rw [trimEnd, trimEnd, List.reverse_cons, List.dropWhile_append]
  cases s.reverse.dropWhile isBlank with
  | nil => cases blank : isBlank c <;> simp [blank]
  | cons d rest => simp

theorem trimStart_squeeze (s : List Char) :
    trimStart (squeeze true s) = squeeze true s ∧ trimStart (squeeze false s) = squeeze true s := by
  have space : isBlank ' ' = true := rfl
  induction s with
  | nil => exact ⟨rfl, rfl⟩
  | cons c s ih =>
    cases blank : isBlank c with
    | true => simpa [squeeze, blank, trimStart, space] using ih.1
    | false => simp [squeeze, blank, trimStart]

/-- The words behind a text that ends in the middle of one, and the words behind a blank. -/
theorem join_wordsAfter (s : List Char) :
    (∀ word, word ≠ [] →
      join [' '] (wordsAfter word s) = word.reverse ++ trimEnd (squeeze false s)) ∧
      join [' '] (wordsAfter [] s) = trimEnd (squeeze true s) := by
  have space : isBlank ' ' = true := rfl
  induction s with
  | nil =>
    refine ⟨fun word given => ?_, rfl⟩
    simp [wordsAfter, given, join, squeeze, trimEnd]
  | cons c s ih =>
    obtain ⟨inside, apart⟩ := ih
    cases blank : isBlank c with
    | false =>
      constructor
      · intro word given
        simp [wordsAfter, blank, inside, squeeze, trimEnd_cons]
      · simp [wordsAfter, blank, inside, squeeze, trimEnd_cons]
    | true =>
      refine ⟨fun word given => ?_, by simpa [wordsAfter, blank, squeeze] using apart⟩
      have first : wordsAfter word (c :: s) = word.reverse :: wordsAfter [] s := by
        simp [wordsAfter, blank, given]
      have squeezed : squeeze false (c :: s) = ' ' :: squeeze true s := by simp [squeeze, blank]
      rw [first, squeezed, trimEnd_cons, ← apart]
      cases words : wordsAfter [] s with
      | nil => simp [join, space]
      | cons w ws =>
        have some : w ≠ [] := (noBlank_of_mem_words (words ▸ List.mem_cons_self ..)).1
        cases ws <;> simp [join, some]

/-- The words of a text with single spaces are the text with its white space collapsed and its ends
trimmed. -/
theorem collapse_eq_trim_squeeze (s : List Char) : collapse s = trim (squeeze false s) := by
  rw [trim, (trimStart_squeeze s).2]
  exact (join_wordsAfter s).2

end Text

namespace Query

open Mark

/-- A plain text, and literals each with the plain text behind it. -/
structure Division where
  first : List Char
  rest : List (List Char × List Char)

namespace Division

variable {d d' : Division} {s : List Char}

def pieces (d : Division) : List Piece :=
  .plain d.first :: d.rest.flatMap fun x => [.literal x.1, .plain x.2]

def literals (d : Division) : List (List Char) :=
  d.rest.map Prod.fst

/-- The pieces are the text, no quote is outside of literals, and each literal is closed. -/
structure Divides (d : Division) (s : List Char) : Prop where
  valid : ∀ p ∈ d.pieces, p.Valid
  text : Piece.textOf d.pieces = s

theorem literals_pieces (d : Division) : Piece.literals d.pieces = d.literals := by
  obtain ⟨first, rest⟩ := d
  suffices behind : Piece.literals (rest.flatMap fun x => [.literal x.1, .plain x.2]) =
      rest.map Prod.fst from behind
  induction rest with
  | nil => rfl
  | cons x rest ih => simp [Piece.literals, ih]

theorem textOf_nil (first : List Char) : Piece.textOf (pieces ⟨first, []⟩) = first := by
  simp [pieces, Piece.textOf, Piece.text]

theorem textOf_cons (first raw behind : List Char) (rest : List (List Char × List Char)) :
    Piece.textOf (pieces ⟨first, (raw, behind) :: rest⟩) =
      first ++ '\'' :: (raw ++ '\'' :: Piece.textOf (pieces ⟨behind, rest⟩)) := by
  simp [pieces, Piece.textOf, Piece.text]

theorem valid_cons {first raw behind : List Char} {rest : List (List Char × List Char)} :
    (∀ p ∈ pieces ⟨first, (raw, behind) :: rest⟩, p.Valid) ↔
      '\'' ∉ first ∧ WellQuoted raw ∧ ∀ p ∈ pieces ⟨behind, rest⟩, p.Valid := by
  simp [pieces, Piece.Valid]

theorem plain_front {first behind : List Char} (plain : '\'' ∉ first)
    (quote : ∀ c ∈ behind.head?, c = '\'') :
    (first ++ behind).takeWhile (· != '\'') = first := by
  refine (Operand.takeWhile_front (fun c listed => ?_) fun c head => ?_).1
  · rw [bne_iff_ne]
    rintro rfl
    exact plain listed
  · simp [quote c head]

theorem eq_of_textOf {first first' : List Char} {rest rest' : List (List Char × List Char)}
    (valid : ∀ p ∈ pieces ⟨first, rest⟩, p.Valid) (valid' : ∀ p ∈ pieces ⟨first', rest'⟩, p.Valid)
    (same : Piece.textOf (pieces ⟨first, rest⟩) = Piece.textOf (pieces ⟨first', rest'⟩)) :
    first = first' ∧ rest = rest' := by
  induction rest generalizing first first' rest' with
  | nil =>
    have plain : '\'' ∉ first := by simpa [pieces, Piece.Valid] using valid
    rw [textOf_nil] at same
    cases rest' with
    | nil => exact ⟨same.trans (textOf_nil first'), rfl⟩
    | cons x rest' =>
      rw [textOf_cons] at same
      exact absurd (by simp [same]) plain
  | cons x rest ih =>
    obtain ⟨plain, closed, behind⟩ := valid_cons.mp valid
    rw [textOf_cons] at same
    cases rest' with
    | nil =>
      have plain' : '\'' ∉ first' := by simpa [pieces, Piece.Valid] using valid'
      rw [textOf_nil] at same
      exact absurd (by simp [← same]) plain'
    | cons x' rest' =>
      obtain ⟨plain', closed', behind'⟩ := valid_cons.mp valid'
      rw [textOf_cons] at same
      have front : first = first' := by
        have cut := congrArg (List.takeWhile (· != '\'')) same
        rwa [plain_front plain (by simp), plain_front plain' (by simp)] at cut
      subst front
      have literal := (List.cons.inj (List.append_cancel_left same)).2
      have raw : x.1 = x'.1 := endsAtQuote_unique ((endsAtQuote_iff _).mpr closed)
        ((endsAtQuote_iff _).mpr closed') literal
      rw [raw] at literal
      obtain ⟨plain, later⟩ := ih behind behind' (List.cons.inj (List.append_cancel_left literal)).2
      exact ⟨rfl, by rw [Prod.ext raw plain, later]⟩

theorem Divides.unique (one : d.Divides s) (other : d'.Divides s) : d' = d := by
  obtain ⟨first, rest⟩ := eq_of_textOf other.valid one.valid (other.text.trans one.text.symm)
  cases d
  cases d'
  simp_all

theorem exists_divides {marks : List Mark} (closed : ∀ m ∈ marks, m.Closed) :
    ∃ d : Division, d.Divides (marks.flatMap Mark.text) := by
  induction marks with
  | nil => exact ⟨⟨[], []⟩, by simp [pieces, Piece.Valid], rfl⟩
  | cons m marks ih =>
    obtain ⟨here, later⟩ := List.forall_mem_cons.mp closed
    obtain ⟨⟨first, rest⟩, valid, text⟩ := ih later
    cases m with
    | char c =>
      have plain : c ≠ '\'' := here
      refine ⟨⟨c :: first, rest⟩, ?_, ?_⟩
      · simpa [pieces, Piece.Valid, plain.symm] using valid
      · simpa [pieces, Piece.textOf, Piece.text, Mark.text] using text
    | literal number raw =>
      have closed : WellQuoted raw := (endsAtQuote_iff raw).mp here
      refine ⟨⟨[], (raw, first) :: rest⟩, valid_cons.mpr ⟨by simp, closed, valid⟩, ?_⟩
      simp [textOf_cons, text, Mark.text]

end Division

mutual

theorem code_outside {n : Nat} {s : List Char} {fault : FieldFault}
    (h : outside n s = .error fault) : fault.code = 171 := by
  match s with
  | [] => cases h
  | c :: rest =>
    rw [outside] at h
    split at h
    · exact code_inside h
    · exact code_outside (Outcome.map_error.mp h)

theorem code_inside {n : Nat} {opening literal rest : List Char} {escaped : Bool}
    {fault : FieldFault} (h : inside n opening literal escaped rest = .error fault) :
    fault.code = 171 := by
  match rest with
  | [] =>
    cases h
    rfl
  | c :: rest =>
    rw [inside] at h
    split at h
    · exact code_outside (Outcome.map_error.mp h)
    · exact code_inside h

end

/-- Taking the literals out succeeds exactly for the texts with a division. There is only one, its
literals are the constants, and its texts with placeholders between them, white space collapsed and
trimmed, are the search. Any other text is refused as an ill-formed literal. -/
theorem extraction_exact (s : List Char) :
    ((∃ q, ofText s = .ok q) ↔ ∃ d : Division, d.Divides s) ∧
      (∀ d : Division, d.Divides s → (∀ other : Division, other.Divides s → other = d) ∧
        ofText s =
          .ok ⟨Text.trim (Text.squeeze false (Piece.placed 0 d.pieces)), d.literals⟩) ∧
      ((¬∃ d : Division, d.Divides s) → ∃ fault, ofText s = .error fault ∧ fault.code = 171) := by
  have exact : ∀ d : Division, d.Divides s → ofText s =
      .ok ⟨Text.trim (Text.squeeze false (Piece.placed 0 d.pieces)), d.literals⟩ := by
    intro d divides
    rw [← divides.text, ofText_textOf divides.valid, Division.literals_pieces,
      Text.collapse_eq_trim_squeeze]
  have cut : (∃ q, ofText s = .ok q) ↔ ∃ d : Division, d.Divides s := by
    constructor
    · rintro ⟨q, read⟩
      obtain ⟨search, -, text, -⟩ := marked_of_read read
      exact text ▸ Division.exists_divides (closed_marks read)
    · rintro ⟨d, divides⟩
      exact ⟨_, exact d divides⟩
  refine ⟨cut, fun d divides => ⟨fun other same => divides.unique same, exact d divides⟩, ?_⟩
  intro undivided
  cases read : ofText s with
  | ok q => exact absurd (cut.mp ⟨q, read⟩) undivided
  | error fault => exact ⟨fault, rfl, code_outside (Outcome.map_error.mp read)⟩

namespace Sample

def namesDivision : Division where
  first := " AA = ".toList
  rest := [("\\'Né".toList, "\t and\u00a0 BB=".toList), ([], " ".toList)]

end Sample

/-- A query with an escaped quote and an empty literal, and one whose literal is left open. -/
theorem names_extracted :
    Sample.namesDivision.Divides " AA = '\\'Né'\t and\u00a0 BB='' ".toList ∧
      ofText " AA = '\\'Né'\t and\u00a0 BB='' ".toList =
        .ok ⟨"AA = #\x7b1\x7d and BB=#\x7b2\x7d".toList, ["\\'Né".toList, []]⟩ ∧
      ∃ fault, ofText "AA='Né\\'".toList = .error fault ∧ fault.code = 171 := by
  have closed : ∀ raw : List Char, endsAtQuote false raw = true → WellQuoted raw :=
    fun raw => (endsAtQuote_iff raw).mp
  have divides : Sample.namesDivision.Divides " AA = '\\'Né'\t and\u00a0 BB='' ".toList := by
    refine ⟨Division.valid_cons.mpr ⟨by decide, closed _ rfl, ?_⟩, rfl⟩
    refine Division.valid_cons.mpr ⟨by decide, closed _ rfl, ?_⟩
    exact List.forall_mem_singleton.mpr (by decide : '\'' ∉ [' '])
  obtain ⟨cut, -, refused⟩ := extraction_exact "AA='Né\\'".toList
  have undivided : ¬∃ d : Division, d.Divides "AA='Né\\'".toList := by
    rw [← cut]
    rintro ⟨q, read⟩
    cases read
  exact ⟨divides, ((extraction_exact _).2.1 _ divides).2.trans rfl, refused undivided⟩

end Query

end RecordCodec
