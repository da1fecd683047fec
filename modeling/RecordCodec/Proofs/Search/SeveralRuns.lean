import RecordCodec.Proofs.Search.Divisions
import RecordCodec.Proofs.Search.LiteralExtent

/-!
Operands of several runs with white space between them. Whether such an operand is folded to bytes
is decided by its beginning and by its placeholders, before any run is read: one that starts with a
decimal number and has no placeholder stays text.
-/
namespace RecordCodec

namespace Text

/-- A text is its words, in order, with white space between them. -/
inductive Spaced : List (List Char) → List Char → Prop
  | last {w : List Char} (given : w ≠ []) : Spaced [w] w
  | cons {w blanks s : List Char} {ws : List (List Char)} (given : w ≠ []) (apart : blanks ≠ [])
      (blank : ∀ c ∈ blanks, isBlank c = true) (later : Spaced ws s) :
      Spaced (w :: ws) (w ++ (blanks ++ s))

theorem Spaced.ne_nil {ws : List (List Char)} {s : List Char} (spaced : Spaced ws s) : s ≠ [] := by
  cases spaced with
  | last given => exact given
  | cons given => simp [given]

theorem trimEnd_cons_of_ne_nil (c : Char) {s : List Char} (given : trimEnd s ≠ []) :
    trimEnd (c :: s) = c :: trimEnd s := by
  simp [trimEnd_cons, given]

theorem spaced_wordsAfter (s : List Char) :
    (∀ word, word ≠ [] → Spaced (wordsAfter word s) (word.reverse ++ trimEnd s)) ∧
      (wordsAfter [] s = [] ∧ trimEnd s = [] ∨
        ∃ blanks t, (∀ c ∈ blanks, isBlank c = true) ∧ trimEnd s = blanks ++ t ∧
          Spaced (wordsAfter [] s) t) := by
  induction s with
  | nil =>
    refine ⟨fun word given => ?_, .inl ⟨rfl, rfl⟩⟩
    simpa [wordsAfter, given, trimEnd] using Spaced.last (List.reverse_ne_nil_iff.mpr given)
  | cons c s ih =>
    obtain ⟨inside, behind⟩ := ih
    cases blank : isBlank c with
    | false =>
      have kept : trimEnd (c :: s) = c :: trimEnd s := by simp [trimEnd_cons, blank]
      constructor
      · intro word given
        simpa [wordsAfter, blank, kept] using inside (c :: word) (by simp)
      · refine .inr ⟨[], c :: trimEnd s, by simp, kept, ?_⟩
        simpa [wordsAfter, blank] using inside [c] (by simp)
    | true =>
      have skipped : wordsAfter [] (c :: s) = wordsAfter [] s := by simp [wordsAfter, blank]
      have closed : ∀ word, word ≠ [] →
          wordsAfter word (c :: s) = word.reverse :: wordsAfter [] s := by
        intro word given
        simp [wordsAfter, blank, given]
      rcases behind with ⟨none, empty⟩ | ⟨blanks, t, blanks_blank, text, later⟩
      · have nothing : trimEnd (c :: s) = [] := by simp [trimEnd_cons, blank, empty]
        refine ⟨fun word given => ?_, .inl ⟨skipped.trans none, nothing⟩⟩
        rw [closed word given, none, nothing, List.append_nil]
        exact .last (List.reverse_ne_nil_iff.mpr given)
      · have all : ∀ d ∈ c :: blanks, isBlank d = true :=
          List.forall_mem_cons.mpr ⟨blank, blanks_blank⟩
        have kept : trimEnd (c :: s) = c :: blanks ++ t := by
          rw [trimEnd_cons_of_ne_nil c (by simp [text, later.ne_nil]), text, List.cons_append]
        refine ⟨fun word given => ?_, .inr ⟨c :: blanks, t, all, kept, skipped ▸ later⟩⟩
        rw [closed word given, kept]
        exact .cons (List.reverse_ne_nil_iff.mpr given) (by simp) all later

theorem words_trimStart (s : List Char) : words (trimStart s) = words s := by
  induction s with
  | nil => rfl
  | cons c s ih =>
    cases blank : isBlank c with
    | false => simp [trimStart, blank]
    | true => simpa [trimStart, words, wordsAfter, blank] using ih

theorem spaced_trim {s : List Char} (some : words s ≠ []) : Spaced (words s) (trim s) := by
  rw [← words_trimStart] at some ⊢
  rcases (spaced_wordsAfter (trimStart s)).2 with ⟨none, -⟩ | ⟨blanks, t, blank, text, spaced⟩
  · exact absurd none some
  · have ends : trim s = blanks ++ t := text
    cases blanks with
    | nil => exact ends ▸ spaced
    | cons b blanks =>
      have plain := Operand.head_trim s b (by rw [ends]; rfl)
      rw [blank b (List.mem_cons_self ..)] at plain
      cases plain

end Text

namespace Operand

open Text (Spaced)
open Written (Digits)

/-! ### The beginning and the placeholders of a text -/

theorem hasPlaceholder_cons (c : Char) (s : List Char) :
    hasPlaceholder (c :: s) = (c == '#' && s.head? == some '{' || hasPlaceholder s) := by
  rw [hasPlaceholder.eq_def]
  split
  · rename_i same
    cases same
    rfl
  · rename_i other same
    cases same
    have closed : (c == '#' && s.head? == some '{') = false := by
      rw [Bool.and_eq_false_imp]
      intro hash
      rw [beq_eq_false_iff_ne]
      intro brace
      obtain ⟨rest, rfl⟩ := List.head?_eq_some_iff.mp brace
      exact other rest (beq_iff_eq.mp hash) rfl
    rw [closed, Bool.false_or]
  · rename_i same
    cases same

theorem hasPlaceholder_blank {b : Char} (blank : Text.isBlank b = true) (front s : List Char) :
    hasPlaceholder (front ++ b :: s) = (hasPlaceholder front || hasPlaceholder s) := by
  have noHash : (b == '#') = false := by
    rw [beq_eq_false_iff_ne]
    rintro rfl
    cases blank
  have noBrace : (b == '{') = false := by
    rw [beq_eq_false_iff_ne]
    rintro rfl
    cases blank
  induction front with
  | nil => simp [hasPlaceholder_cons, noHash, hasPlaceholder]
  | cons c front ih =>
    rw [List.cons_append, hasPlaceholder_cons, hasPlaceholder_cons, ih, Bool.or_assoc]
    cases front with
    | nil => simp [noBrace]
    | cons d front => rfl

theorem hasPlaceholder_blanks {blanks : List Char} (blank : ∀ c ∈ blanks, Text.isBlank c = true)
    (s : List Char) : hasPlaceholder (blanks ++ s) = hasPlaceholder s := by
  induction blanks with
  | nil => rfl
  | cons b blanks ih =>
    obtain ⟨here, later⟩ := List.forall_mem_cons.mp blank
    exact (hasPlaceholder_blank here [] (blanks ++ s)).trans (ih later)

theorem hasPlaceholder_spaced {ws : List (List Char)} {s : List Char} (spaced : Spaced ws s) :
    hasPlaceholder s = ws.any hasPlaceholder := by
  induction spaced with
  | last => simp
  | cons given apart blank later ih =>
    rename_i w blanks s ws
    obtain ⟨b, blanks, rfl⟩ := List.exists_cons_of_ne_nil apart
    obtain ⟨here, more⟩ := List.forall_mem_cons.mp blank
    rw [List.cons_append, hasPlaceholder_blank here, hasPlaceholder_blanks more, ih, List.any_cons]

theorem startsHex_cons (c : Char) (s : List Char) : startsHex (c :: s) =
    (c == '0' && (s.head? == some 'x' || s.head? == some 'X')) := by
  unfold startsHex
  split
  · rename_i same
    cases same
    rfl
  · rename_i same
    cases same
    rfl
  · rename_i lower upper
    symm
    rw [Bool.and_eq_false_imp]
    intro zero
    obtain rfl := beq_iff_eq.mp zero
    cases s with
    | nil => rfl
    | cons d s =>
      have noLower : d ≠ 'x' := fun same => lower s (same ▸ rfl)
      have noUpper : d ≠ 'X' := fun same => upper s (same ▸ rfl)
      simp [noLower, noUpper]

theorem startsHex_blank {b : Char} (blank : Text.isBlank b = true) {w : List Char} (given : w ≠ [])
    (s : List Char) : startsHex (w ++ b :: s) = startsHex w := by
  obtain ⟨c, w, rfl⟩ := List.exists_cons_of_ne_nil given
  rw [List.cons_append, startsHex_cons, startsHex_cons]
  cases w with
  | cons d w => rfl
  | nil =>
    have noLower : b ≠ 'x' := by
      rintro rfl
      cases blank
    have noUpper : b ≠ 'X' := by
      rintro rfl
      cases blank
    simp [noLower, noUpper]

theorem startsHex_spaced {w s : List Char} {ws : List (List Char)} (spaced : Spaced (w :: ws) s) :
    startsHex s = startsHex w := by
  cases spaced with
  | last => rfl
  | cons given apart blank later =>
    obtain ⟨b, blanks, rfl⟩ := List.exists_cons_of_ne_nil apart
    exact startsHex_blank (blank b (List.mem_cons_self ..)) given _

theorem exists_last {ws : List (List Char)} {s : List Char} (spaced : Spaced ws s) :
    ws = [s] ∨ ∃ front b last, s = front ++ b :: last ∧ Text.isBlank b = true ∧ last ∈ ws ∧
      last ≠ [] := by
  induction spaced with
  | last => exact .inl rfl
  | @cons w blanks s ws given apart blank later ih =>
    right
    rcases ih with rfl | ⟨front, b, last, text, isBlank, listed, some⟩
    · refine ⟨w ++ blanks.dropLast, blanks.getLast apart, s, ?_, blank _ (List.getLast_mem apart),
        by simp, later.ne_nil⟩
      calc w ++ (blanks ++ s) = w ++ (blanks.dropLast ++ [blanks.getLast apart] ++ s) := by
            rw [List.dropLast_append_getLast]
        _ = w ++ blanks.dropLast ++ blanks.getLast apart :: s := by simp
    · exact ⟨w ++ (blanks ++ front), b, last, by simp [text], isBlank,
        List.mem_cons_of_mem _ listed, some⟩

/-! ### Runs -/

/-- Decimal digits, with a sign in front and a fraction behind if there are any. -/
def IsDecimal (w : List Char) : Prop :=
  ∃ (sign : List Char) (whole : Digits) (fraction : List Char),
    w = sign ++ (whole.chars ++ fraction) ∧ sign ∈ [[], ['+'], ['-']] ∧
      (fraction = [] ∨ ∃ digits, fraction = '.' :: digits ∧ digits.all Text.isDigit = true)

/-- A run as it stands in an operand, where a placeholder stands for a quoted string. -/
inductive IsRun : List Char → Prop
  | hex {x : Char} {digits count : List Char} (letter : x = 'x' ∨ x = 'X') (given : digits ≠ [])
      (all : ∀ c ∈ digits, isHexDigit c = true)
      (counted : count = [] ∨ ∃ k : Digits, count = '(' :: (k.chars ++ [')'])) :
      IsRun ('0' :: x :: (digits ++ count))
  | quoted (n : Nat) : IsRun (Query.placeholder n)
  | number {w : List Char} (number : IsDecimal w) : IsRun w

/-- Runs that stay text: the first one is a number, and none is a placeholder. -/
def StayText (ws : List (List Char)) : Prop :=
  (∃ w ∈ ws.head?, IsDecimal w) ∧ ∀ n, Query.placeholder n ∉ ws

theorem IsDecimal.of_mem {w : List Char} (number : IsDecimal w) {c : Char} (listed : c ∈ w) :
    Text.isDigit c = true ∨ c = '+' ∨ c = '-' ∨ c = '.' := by
  obtain ⟨sign, whole, fraction, rfl, signs, behind⟩ := number
  rcases List.mem_append.mp listed with inSign | later
  · simp only [List.mem_cons, List.not_mem_nil, or_false] at signs
    rcases signs with rfl | rfl | rfl
    · cases inSign
    · exact .inr (.inl (List.mem_singleton.mp inSign))
    · exact .inr (.inr (.inl (List.mem_singleton.mp inSign)))
  · rcases List.mem_append.mp later with inWhole | inFraction
    · exact .inl (List.all_eq_true.mp whole.digits c inWhole)
    · rcases behind with rfl | ⟨digits, rfl, all⟩
      · cases inFraction
      · rcases List.mem_cons.mp inFraction with rfl | digit
        · exact .inr (.inr (.inr rfl))
        · exact .inl (List.all_eq_true.mp all c digit)

theorem IsDecimal.not_mem {w : List Char} (number : IsDecimal w) {c : Char}
    (other : Text.isDigit c = false ∧ c ≠ '+' ∧ c ≠ '-' ∧ c ≠ '.') : c ∉ w := by
  intro listed
  rcases number.of_mem listed with digit | rfl | rfl | rfl
  · rw [other.1] at digit
    cases digit
  · exact other.2.1 rfl
  · exact other.2.2.1 rfl
  · exact other.2.2.2 rfl

theorem NoHex.startsHex {s : List Char} (free : NoHex s) : startsHex s = false := by
  cases s with
  | nil => rfl
  | cons c s =>
    have closed := free.not_opensHex
    rw [startsHex_cons]
    simpa [OpensHex] using closed

theorem IsDecimal.noHex {w : List Char} (number : IsDecimal w) : NoHex w :=
  ⟨number.not_mem (by decide), number.not_mem (by decide)⟩

theorem IsRun.plain {w : List Char} (run : IsRun w) :
    (∃ n, w = Query.placeholder n) ∨ '#' ∉ w ∧ '}' ∉ w := by
  cases run with
  | quoted n => exact .inl ⟨n, rfl⟩
  | number number => exact .inr ⟨number.not_mem (by decide), number.not_mem (by decide)⟩
  | @hex x digits count letter given all counted =>
    have counts : ∀ c ∈ count, Written.isRunChar c = true := by
      rcases counted with rfl | ⟨k, rfl⟩
      · simp
      · simp only [List.forall_mem_cons, List.forall_mem_append]
        exact ⟨rfl, fun c listed => k.isRunChar listed, rfl, by simp⟩
    have absent : ∀ c, Written.isRunChar c = false → c ≠ 'X' →
        c ∉ '0' :: x :: (digits ++ count) := by
      intro c other notUpper listed
      simp only [List.mem_cons, List.mem_append] at listed
      rcases listed with rfl | rfl | digit | inCount
      · cases other
      · rcases letter with rfl | rfl
        · cases other
        · exact notUpper rfl
      · simp [Written.isRunChar, all c digit] at other
      · rw [counts c inCount] at other
        cases other
    exact .inr ⟨absent _ (by decide) (by decide), absent _ (by decide) (by decide)⟩

theorem IsRun.opens_of_closes {w : List Char} (run : IsRun w) (closes : w.getLast? = some '}') :
    '{' ∈ w.dropLast := by
  rcases run.plain with ⟨n, rfl⟩ | ⟨-, noBrace⟩
  · simp [Query.placeholder, List.dropLast_cons_of_ne_nil]
  · exact absurd (List.mem_of_getLast? closes) noBrace

theorem IsRun.hasPlaceholder_iff {w : List Char} (run : IsRun w) :
    hasPlaceholder w = true ↔ ∃ n, w = Query.placeholder n := by
  constructor
  · intro marked
    rcases run.plain with quoted | ⟨noHash, -⟩
    · exact quoted
    · rw [hasPlaceholder_of_noHash noHash] at marked
      cases marked
  · rintro ⟨n, rfl⟩
    rfl

/-- Runs stay text where neither a placeholder nor a hexadecimal run in front says otherwise. -/
theorem stayText_iff {w : List Char} {ws : List (List Char)} (runs : ∀ v ∈ w :: ws, IsRun v) :
    ((w :: ws).any hasPlaceholder || startsHex w) = false ↔ StayText (w :: ws) := by
  have first := runs w (List.mem_cons_self ..)
  rw [Bool.or_eq_false_iff, List.any_eq_false]
  constructor
  · rintro ⟨unmarked, notHex⟩
    have noPlaceholder : ∀ n, Query.placeholder n ∉ w :: ws := fun n listed =>
      unmarked _ listed rfl
    refine ⟨⟨w, rfl, ?_⟩, noPlaceholder⟩
    cases first with
    | number number => exact number
    | quoted n => exact absurd (List.mem_cons_self ..) (noPlaceholder n)
    | hex letter =>
      rcases letter with rfl | rfl <;> cases notHex
  · rintro ⟨⟨v, head, number⟩, noPlaceholder⟩
    obtain rfl : w = v := by simpa using head
    refine ⟨fun v listed marked => ?_, number.noHex.startsHex⟩
    obtain ⟨n, rfl⟩ := (runs v listed).hasPlaceholder_iff.mp marked
    exact noPlaceholder n listed

variable (order : ByteOrder) (constants : List (List Char))

theorem mixed_bytes_or_fault (s : List Char) :
    (∃ bytes, (mixed order constants s).map Scalar.bytes = .ok (.bytes bytes)) ∨
      ∃ fault, (mixed order constants s).map Scalar.bytes = .error fault ∧ fault.code = 171 := by
  rw [mixed]
  cases mixedFrom order constants [] s with
  | ok bytes => exact .inl ⟨bytes, rfl⟩
  | error fault => exact .inr ⟨_, rfl, rfl⟩

/-- An operand of several runs is their bytes or a fault, unless it starts with a number and has no
placeholder: then it is its own text. -/
theorem several_runs_read {s : List Char} (runs : ∀ w ∈ Text.words s, IsRun w)
    (several : 2 ≤ (Text.words s).length) :
    (StayText (Text.words s) → ofText order constants s = .ok (.text (Text.trim s))) ∧
    (¬StayText (Text.words s) →
      ofText order constants s = (mixed order constants (Text.trim s)).map .bytes ∧
      ((∃ bytes, ofText order constants s = .ok (.bytes bytes)) ∨
        ∃ fault, ofText order constants s = .error fault ∧ fault.code = 171)) := by
  obtain ⟨w, ws, words⟩ : ∃ w ws, Text.words s = w :: ws :=
    List.exists_cons_of_length_pos (by omega)
  have spaced : Spaced (Text.words s) (Text.trim s) := Text.spaced_trim (by simp [words])
  have whole : single? (Text.trim s) = none := by
    rcases exists_last spaced with one | ⟨front, b, last, text, blank, listed, given⟩
    · simp [one] at several
    · exact text ▸ single?_blank blank given (runs last listed).opens_of_closes front
  have read : ofText order constants s =
      if ((w :: ws).any hasPlaceholder || startsHex w) = true then
        (mixed order constants (Text.trim s)).map .bytes
      else .ok (.text (Text.trim s)) := by
    rw [words] at spaced
    rw [ofText, ← single?, whole, ← hasPlaceholder_spaced spaced, ← startsHex_spaced spaced]
  rw [words] at runs ⊢
  rw [← stayText_iff runs]
  constructor
  · intro stays
    rw [read, stays, if_neg Bool.false_ne_true]
  · intro folds
    rw [Bool.not_eq_false] at folds
    rw [if_pos folds] at read
    exact ⟨read, read ▸ mixed_bytes_or_fault order constants _⟩

namespace Sample

theorem isDecimal_twelve : IsDecimal ['1', '2'] :=
  ⟨[], ⟨['1', '2'], by simp, rfl⟩, [], rfl, by simp, .inl rfl⟩

theorem isRun_one : IsRun "0x01".toList :=
  .hex (x := 'x') (.inl rfl) (List.cons_ne_nil '0' ['1']) (List.all_eq_true.mp rfl) (.inl rfl)

end Sample

theorem marked_number_folded :
    (∀ w ∈ Text.words "12  #\x7b1\x7d".toList, IsRun w) ∧
      2 ≤ (Text.words "12  #\x7b1\x7d".toList).length ∧
      ¬StayText (Text.words "12  #\x7b1\x7d".toList) ∧
      ofText .big [['A']] "12  #\x7b1\x7d".toList = .ok (.bytes [120, 0x41]) := by
  have words : Text.words "12  #\x7b1\x7d".toList = [['1', '2'], Query.placeholder 1] := rfl
  have runs : ∀ w ∈ Text.words "12  #\x7b1\x7d".toList, IsRun w := by
    rw [words]
    simpa using ⟨.number Sample.isDecimal_twelve, .quoted 1⟩
  have several : 2 ≤ (Text.words "12  #\x7b1\x7d".toList).length := by
    rw [words]
    decide
  have folds : ¬StayText (Text.words "12  #\x7b1\x7d".toList) := by
    rw [words]
    exact fun stays => stays.2 1 (by simp)
  have bytes : mixed .big [['A']] (Text.trim "12  #\x7b1\x7d".toList) = .ok [120, 0x41] := by
    decide +kernel
  have read := ((several_runs_read .big [['A']] runs several).2 folds).1
  rw [bytes] at read
  exact ⟨runs, several, folds, read⟩

theorem number_first_kept : (∀ w ∈ Text.words "12 0x01".toList, IsRun w) ∧
    2 ≤ (Text.words "12 0x01".toList).length ∧
    ofText .big [] "12 0x01".toList = .ok (.text "12 0x01".toList) := by
  have words : Text.words "12 0x01".toList = [['1', '2'], "0x01".toList] := rfl
  rw [words]
  exact ⟨by simpa using ⟨.number Sample.isDecimal_twelve, Sample.isRun_one⟩, by decide, rfl⟩

end Operand

end RecordCodec
