import RecordCodec.Libraries.Standard
import RecordCodec.Proofs.Search.Ranges
import RecordCodec.Proofs.Search.Runs

/-!
Mixed literals in queries. An operand that is written as runs with one space between neighbours is
read as bytes if it starts with hexadecimal digits or has a quoted text besides other runs: those of
its runs one after another, unless a number or the bytes up to a hexadecimal run are too large.
-/
namespace RecordCodec

open Mark
open Outcome (Bounded)

namespace Written

/-! ### The marks of a text -/

def isRunChar (c : Char) : Bool :=
  Operand.isHexDigit c || c == 'x' || c == '(' || c == ')'

theorem isHexDigit_of_isDigit {c : Char} (digit : Text.isDigit c = true) :
    Operand.isHexDigit c = true := by
  simp only [Text.isDigit, Bool.and_eq_true, decide_eq_true_eq] at digit
  simp [Operand.isHexDigit, Hex.digitValue?, digit]

theorem Digits.isRunChar (d : Digits) {c : Char} (listed : c ∈ d.chars) : isRunChar c = true := by
  simp [Written.isRunChar, isHexDigit_of_isDigit (List.all_eq_true.mp d.digits c listed)]

theorem isBlank_of_isRunChar {c : Char} (plain : isRunChar c = true) : Text.isBlank c = false := by
  have bounds : 40 ≤ c.toNat ∧ c.toNat ≤ 120 := by
    simp only [isRunChar, Bool.or_eq_true, beq_iff_eq] at plain
    rcases plain with ((hex | rfl) | rfl) | rfl
    · simp only [Operand.isHexDigit, Hex.digitValue?] at hex
      split at hex
      · omega
      · split at hex
        · omega
        · split at hex
          · omega
          · cases hex
    all_goals decide
  simp only [Text.isBlank, Bool.or_eq_false_iff, Bool.and_eq_false_iff, decide_eq_false_iff_not,
    beq_eq_false_iff_ne]
  omega

namespace Run

variable {r : Run} {n : Nat}

theorem isRunChar_of_mem {c : Char} (listed : .char c ∈ r.marks n) : isRunChar c = true := by
  cases r with
  | hex h =>
    obtain ⟨d, inside, same⟩ := List.mem_map.mp listed
    cases same
    simp only [text, List.mem_cons, List.mem_append] at inside
    rcases inside with rfl | rfl | digit | count
    · rfl
    · rfl
    · obtain ⟨p, among, here⟩ := List.mem_flatMap.mp digit
      obtain ⟨high, low⟩ := h.digits p among
      simp only [List.mem_cons, List.not_mem_nil, or_false] at here
      rcases here with rfl | rfl
      · simp [isRunChar, high]
      · simp [isRunChar, low]
    · unfold HexRun.countText at count
      split at count
      · cases count
      · rename_i k _
        simp only [List.mem_cons, List.mem_append, List.not_mem_nil, or_false] at count
        rcases count with rfl | digit | rfl
        · rfl
        · exact k.isRunChar digit
        · rfl
  | quoted l => simp [marks] at listed
  | number d =>
    obtain ⟨e, inside, same⟩ := List.mem_map.mp listed
    cases same
    exact d.isRunChar inside

theorem closed_marks : ∀ m ∈ r.marks n, m.Closed := by
  intro m listed
  cases m with
  | char c =>
    rintro rfl
    cases isRunChar_of_mem listed
  | literal number raw =>
    cases r with
    | hex h | number d => simp [marks] at listed
    | quoted l =>
      cases List.mem_singleton.mp listed
      exact (Query.endsAtQuote_iff _).mpr l.wellQuoted

theorem noBlank_marks : ∀ m ∈ r.marks n, m.isBlank = false := by
  intro m listed
  cases m with
  | char c => exact isBlank_of_isRunChar (isRunChar_of_mem listed)
  | literal number raw => rfl

theorem text_marks : (r.marks n).flatMap Mark.text = r.text := by
  cases r with
  | hex h => exact flatMap_char _
  | quoted l => exact List.append_nil _
  | number d => exact flatMap_char _

theorem exists_first (r : Run) (n : Nat) (later : List Mark) : ∃ c rest,
    place (r.marks n ++ later) = c :: rest ∧
      (Text.isDigit c = true ∨ c = '#' ∧ ∃ l, r = quoted l) := by
  cases r with
  | hex h => exact ⟨'0', _, rfl, .inl rfl⟩
  | quoted l => exact ⟨'#', _, rfl, .inr ⟨rfl, l, rfl⟩⟩
  | number d =>
    obtain ⟨c, more, chars⟩ := List.exists_cons_of_ne_nil d.given
    refine ⟨c, more ++ place later, ?_, .inl ?_⟩
    · rw [place_append, marks, place_char, chars, List.cons_append]
    · exact List.all_eq_true.mp d.digits c (chars ▸ List.mem_cons_self ..)

theorem place_marks_ne_nil (r : Run) (n : Nat) : place (r.marks n) ≠ [] := by
  obtain ⟨c, rest, first, -⟩ := r.exists_first n []
  rw [List.append_nil] at first
  simp [first]

theorem of_sameText {row : List Mark} (same : SameText (r.marks n) row) : ∃ k, row = r.marks k := by
  cases r with
  | quoted l =>
    obtain ⟨k, rest, rfl, none⟩ := same.of_literal rfl
    exact ⟨k, by rw [none.of_nil rfl]; rfl⟩
  | hex h | number d =>
    refine ⟨n, same.eq_of_bare fun m listed => ?_⟩
    obtain ⟨c, -, rfl⟩ := List.mem_map.mp listed
    rfl

end Run

theorem text_runsMarks (items : List (Nat × Run)) :
    (runsMarks items).flatMap Mark.text = runsText (items.map Prod.snd) := by
  cases items with
  | nil => rfl
  | cons x items =>
    rw [runsMarks_cons, List.flatMap_append, Run.text_marks, List.flatMap_assoc, runsText,
      List.map_cons, List.map_cons, Text.join_cons, List.flatMap_map, List.flatMap_map]
    refine congrArg (x.2.text ++ ·) (List.flatMap_congr fun y _ => ?_)
    rw [List.flatMap_cons, Run.text_marks]
    rfl

theorem mem_runsMarks {items : List (Nat × Run)} {x : Nat × Run} (listed : x ∈ items) {m : Mark}
    (inside : m ∈ x.2.marks x.1) : m ∈ runsMarks items := by
  cases items with
  | nil => cases listed
  | cons y items =>
    rw [runsMarks_cons, List.mem_append]
    rcases List.mem_cons.mp listed with rfl | later
    · exact .inl inside
    · exact .inr (List.mem_flatMap.mpr ⟨x, later, List.mem_cons_of_mem _ inside⟩)

theorem closed_runsMarks (items : List (Nat × Run)) : ∀ m ∈ runsMarks items, m.Closed := by
  intro m listed
  rcases Query.mem_intercalate listed with space | ⟨part, among, inside⟩
  · cases List.mem_singleton.mp space
    exact (by decide : ' ' ≠ '\'')
  · obtain ⟨x, -, rfl⟩ := List.mem_map.mp among
    exact Run.closed_marks m inside

theorem spaced_of_sameText {items : List (Nat × Run)} {row : List Mark}
    (same : SameText (items.flatMap fun x => .char ' ' :: x.2.marks x.1) row) :
    ∃ items' : List (Nat × Run), items'.map Prod.snd = items.map Prod.snd ∧
      row = items'.flatMap fun x => .char ' ' :: x.2.marks x.1 := by
  induction items generalizing row with
  | nil => exact ⟨[], rfl, same.of_nil rfl⟩
  | cons x items ih =>
    obtain ⟨row, rfl, here⟩ := same.of_char rfl
    obtain ⟨first, later, rfl, one, rest⟩ := here.of_append rfl
    obtain ⟨k, rfl⟩ := Run.of_sameText one
    obtain ⟨items', runs, rfl⟩ := ih rest
    exact ⟨(k, x.2) :: items', by rw [List.map_cons, List.map_cons, runs], rfl⟩

theorem runsMarks_of_sameText {items : List (Nat × Run)} {row : List Mark}
    (same : SameText (runsMarks items) row) :
    ∃ items' : List (Nat × Run), items'.map Prod.snd = items.map Prod.snd ∧
      row = runsMarks items' := by
  cases items with
  | nil => exact ⟨[], rfl, same.of_nil rfl⟩
  | cons x items =>
    rw [runsMarks_cons] at same
    obtain ⟨first, later, rfl, one, rest⟩ := same.of_append rfl
    obtain ⟨k, rfl⟩ := Run.of_sameText one
    obtain ⟨items', runs, rfl⟩ := spaced_of_sameText rest
    exact ⟨(k, x.2) :: items', by rw [List.map_cons, List.map_cons, runs],
      (runsMarks_cons (k, x.2) items').symm⟩

def unnumbered (runs : List Run) : List (Nat × Run) :=
  runs.map fun r => (0, r)

theorem map_snd_unnumbered (runs : List Run) : (unnumbered runs).map Prod.snd = runs := by
  rw [unnumbered, List.map_map]
  exact List.map_id runs

theorem runsMarks_of_text {runs : List Run} {row : List Mark} (closed : ∀ m ∈ row, m.Closed)
    (text : row.flatMap Mark.text = runsText runs) :
    ∃ items : List (Nat × Run), items.map Prod.snd = runs ∧ row = runsMarks items := by
  have same : SameText (runsMarks (unnumbered runs)) row := by
    refine sameText_of_text (closed_runsMarks _) closed ?_
    rw [text_runsMarks, map_snd_unnumbered, text]
  obtain ⟨items, numbered, rfl⟩ := runsMarks_of_sameText same
  exact ⟨items, numbered.trans (map_snd_unnumbered runs), rfl⟩

/-- Runs that are a mixed literal: the first one is hexadecimal, or one of several is quoted. -/
def Mixed (runs : List Run) : Prop :=
  (∃ h rest, runs = .hex h :: rest) ∨ (2 ≤ runs.length ∧ ∃ l, .quoted l ∈ runs)

end Written

/-! ### Mixed literals as operands -/

namespace Operand

open Written (Run runsMarks)

variable {order : ByteOrder} {constants : List (List Char)} {items : List (Nat × Run)}

theorem trim_runsMarks (items : List (Nat × Run)) :
    Text.trim (place (runsMarks items)) = place (runsMarks items) := by
  have words : ∀ w ∈ (items.map fun x => x.2.marks x.1).map place, w ≠ [] ∧ Text.NoBlank w := by
    intro w listed
    obtain ⟨part, among, rfl⟩ := List.mem_map.mp listed
    obtain ⟨x, -, rfl⟩ := List.mem_map.mp among
    exact ⟨x.2.place_marks_ne_nil x.1, noBlank_place Run.noBlank_marks⟩
  have ends := Text.join_ends words
  rw [runsMarks, ← Query.join_place]
  exact Text.trim_of_ends ends.1 ends.2

theorem hasPlaceholder_of_quoted {l : Written.Literal} (listed : .quoted l ∈ items.map Prod.snd) :
    hasPlaceholder (place (runsMarks items)) = true := by
  by_contra plain
  have bare := bare_of_noPlaceholder (Bool.eq_false_iff.mpr plain)
  obtain ⟨x, among, same⟩ := List.mem_map.mp listed
  have literal : .literal x.1 l.raw ∈ runsMarks items :=
    Written.mem_runsMarks among (by rw [same]; exact List.mem_singleton.mpr rfl)
  cases bare _ literal

theorem single?_of_first {c : Char} (other : c ≠ '#') (rest : List Char) :
    single? (c :: rest) = none := by
  unfold single? placeholder?
  split
  · rename_i same
    exact absurd (List.cons.inj same).1 other
  · rfl

theorem single?_runsMarks (mixed : Written.Mixed (items.map Prod.snd)) :
    single? (place (runsMarks items)) = none := by
  cases items with
  | nil => rfl
  | cons x items =>
    obtain ⟨n, r⟩ := x
    rw [Written.runsMarks_cons]
    obtain ⟨c, rest, text, digit | ⟨-, l, rfl⟩⟩ :=
      r.exists_first n (items.flatMap fun x => .char ' ' :: x.2.marks x.1)
    · rw [text]
      refine single?_of_first ?_ rest
      rintro rfl
      cases digit
    · refine single?_literal.mpr ⟨?_, fun closes => ?_⟩
      · rcases mixed with ⟨h, rest, first⟩ | ⟨several, -⟩
        · cases first
        · cases items with
          | nil => simp at several
          | cons y items => simp
      · -- Only a placeholder closes with a brace, and it opens with one.
        obtain ⟨m, inside, here⟩ := List.mem_flatMap.mp (List.mem_of_getLast? closes)
        refine List.mem_flatMap.mpr ⟨m, inside, ?_⟩
        cases m with
        | literal number raw => simp [placed, Query.placeholder]
        | char c =>
          obtain rfl := List.mem_singleton.mp here
          obtain ⟨x, -, among⟩ := List.mem_flatMap.mp inside
          rcases List.mem_cons.mp among with space | among
          · cases space
          · cases Run.isRunChar_of_mem among

theorem ofText_runsMarks (mixed : Written.Mixed (items.map Prod.snd))
    {segments : List (List UInt8)}
    (denoted : List.Forall₂ (Run.Denotes order) (items.map Prod.snd) segments)
    (held : Held constants (runsMarks items)) :
    Bounded (Written.TooLarge 0 (items.map Prod.snd) segments) (fun fault => fault.code = 171)
      (ofText order constants (place (runsMarks items))) (.ok (.bytes segments.flatten)) := by
  have whole : place (trimmed (runsMarks items)) = place (runsMarks items) := by
    rw [← trim_place, trim_runsMarks]
  have isMixed : (hasPlaceholder (place (runsMarks items)) ||
      startsHex (place (runsMarks items))) = true := by
    rw [Bool.or_eq_true]
    rcases mixed with ⟨h, rest, first⟩ | ⟨-, l, quoted⟩
    · obtain ⟨x, items, rfl, same, -⟩ := List.map_eq_cons_iff.mp first
      rw [Written.runsMarks_cons, same]
      exact .inr rfl
    · exact .inl (hasPlaceholder_of_quoted quoted)
  rw [ofText_of_single? (whole ▸ single?_runsMarks mixed), whole, if_pos isMixed, Operand.mixed]
  exact ((mixedFrom_runsMarks denoted held).mapError
    (FieldFault.invalidLiteral (String.ofList (place (runsMarks items)))) fun _ _ => rfl).map
      Scalar.bytes

end Operand

/-! ### Comparisons with mixed literals -/

open Written (Run runsMarks runsText)

theorem isRange_runsMarks (items : List (Nat × Run)) :
    Query.isRange (place (runsMarks items)) = false := by
  cases items with
  | nil => rfl
  | cons x items =>
    obtain ⟨c, rest, text, first⟩ :=
      x.2.exists_first x.1 (items.flatMap fun x => .char ' ' :: x.2.marks x.1)
    have noBracket : (c == '[' || c == '(') = false := by
      rw [Bool.or_eq_false_iff, beq_eq_false_iff_ne, beq_eq_false_iff_ne]
      constructor <;> rintro rfl <;> rcases first with digit | ⟨marker, -⟩ <;> contradiction
    rw [Written.runsMarks_cons, text, Query.isRange]
    simp only [List.head?_cons, Option.some_beq_some, noBracket, Bool.false_and]

section

variable [Libraries]

/-- Raw bytes are refused for their number, their length or the kind of the field, but never as an
ill-formed literal. -/
theorem Leaf.code_assignBytes {l : Leaf} {bytes : List UInt8} {fault : FieldFault}
    (refused : l.assignOperand (.bytes bytes) = .error fault) : fault.code ≠ 171 := by
  obtain ⟨p, content⟩ := l
  cases content with
  | superDescriptor => cases refused
  | pseudo =>
    cases refused
    exact (by decide : 37 ≠ 171)
  | integer width signed =>
    rcases Outcome.bind_error.mp (Outcome.map_error.mp (Outcome.map_error.mp refused)) with
      long | ⟨v, -, outside⟩
    · rcases Outcome.unless_error.mp long with ⟨-, rfl⟩ | ⟨-, done⟩
      · exact (by decide : 59 ≠ 171)
      · cases done
    · rw [IntegerField.code_check outside]
      split <;> decide
  | octets =>
    rcases Outcome.unless_error.mp (Outcome.map_error.mp (Outcome.map_error.mp refused)) with
      ⟨-, rfl⟩ | ⟨-, done⟩
    · exact (by decide : 59 ≠ 171)
    · cases done
  | float wide =>
    rcases Outcome.bind_error.mp (Outcome.map_error.mp (Outcome.map_error.mp refused)) with
      long | ⟨bits, -, outside⟩
    · unfold FloatField.toDouble at long
      dsimp only at long
      split at long <;> cases long
      exact (by decide : 59 ≠ 171)
    · split at outside <;> cases outside
      exact (by decide : 57 ≠ 171)
  | packed | unpacked =>
    rcases Outcome.unless_error.mp (Outcome.map_error.mp (Outcome.map_error.mp refused)) with
      ⟨-, rfl⟩ | ⟨-, bad⟩
    · exact (by decide : 59 ≠ 171)
    · split at bad <;> cases bad
      exact (by decide : 103 ≠ 171)
  | text size unicode =>
    rcases Outcome.bind_error.mp (Outcome.map_error.mp (Outcome.map_error.mp refused)) with
      none | ⟨payload, -, laid⟩
    · cases none
    · rcases Outcome.bind_error.mp laid with long | ⟨_, -, done⟩
      · unfold TextField.layout at long
        split at long
        · cases long
        · rcases Outcome.unless_error.mp long with ⟨-, rfl⟩ | ⟨-, done⟩
          · exact (by decide : 77 ≠ 171)
          · cases done
      · cases done

def Query.bytesPredicate (platform : Platform) (field : FieldType) (name : List Char)
    (comparator : Comparator) (bytes : List UInt8) : Except FieldFault Predicate :=
  ((field.compared.fresh platform).assignOperand (.bytes bytes)).map fun v =>
    ⟨String.ofList name, comparator, v⟩

theorem Query.code_bytesPredicate {platform : Platform} {field : FieldType} {name : List Char}
    {comparator : Comparator} {bytes : List UInt8} {fault : FieldFault}
    (refused : bytesPredicate platform field name comparator bytes = .error fault) :
    fault.code ≠ 171 := by
  have assigned := Outcome.map_error.mp refused
  cases fresh : field.compared.fresh platform with
  | leaf l =>
    rw [fresh] at assigned
    exact Leaf.code_assignBytes (Outcome.map_error.mp assigned)
  | node p parts =>
    rw [fresh] at assigned
    cases assigned
    exact (by decide : 103 ≠ 171)

/-- A comparison with a mixed literal becomes the one with its bytes, unless it is too large. -/
theorem SearchTarget.predicate_runsMarks {t : SearchTarget} {items : List (Nat × Run)}
    (mixed : Written.Mixed (items.map Prod.snd)) (held : Held t.constants (runsMarks items))
    {segments : List (List UInt8)}
    (denoted : List.Forall₂ (Run.Denotes t.byteOrder) (items.map Prod.snd) segments)
    {s name : List Char} {comparator : Comparator}
    (parts : Query.predicateParts s = .ok (name, comparator, place (runsMarks items)))
    {field : FieldType} (found : t.definition.field (String.ofList name) = .ok field) :
    Bounded (Written.TooLarge 0 (items.map Prod.snd) segments) (fun fault => fault.code = 171)
      (t.predicate s)
      ((Query.bytesPredicate t.platform field name comparator segments.flatten).map .leaf) := by
  have read : t.leaf name comparator (place (runsMarks items)) =
      (Operand.ofText t.byteOrder t.constants (place (runsMarks items))).bind fun scalar =>
        (((field.compared.fresh t.platform).assignOperand scalar).map fun v =>
          ⟨String.ofList name, comparator, v⟩).map .leaf := by
    rw [SearchTarget.leaf, found]
    change (Operand.ofText t.byteOrder t.constants (place (runsMarks items))).bind _ = _
    refine congrArg (Except.bind _) (funext fun scalar => ?_)
    change ((field.compared.fresh t.platform).assignOperand scalar).bind _ = _
    cases (field.compared.fresh t.platform).assignOperand scalar <;> rfl
  rw [t.predicate_of_parts parts, isRange_runsMarks, if_neg Bool.false_ne_true, read]
  exact (Operand.ofText_runsMarks mixed denoted held).bind _

end

namespace Query

/-! ### A query of one comparison -/

theorem exists_outside {row : List Mark} (closed : ∀ m ∈ row, m.Closed) (n : Nat) :
    ∃ read, outside n (row.flatMap Mark.text) = .ok read := by
  induction row generalizing n with
  | nil => exact ⟨_, rfl⟩
  | cons m row ih =>
    obtain ⟨here, later⟩ := List.forall_mem_cons.mp closed
    cases m with
    | char c =>
      obtain ⟨read, behind⟩ := ih later n
      rw [List.flatMap_cons, Mark.text, List.singleton_append, outside, if_neg here, behind]
      exact ⟨_, rfl⟩
    | literal number raw =>
      obtain ⟨read, behind⟩ := ih later (n + 1)
      have text : (Mark.literal number raw :: row).flatMap Mark.text =
          '\'' :: (raw ++ '\'' :: row.flatMap Mark.text) := by
        simp [Mark.text]
      rw [text, outside_literal ((endsAtQuote_iff raw).mp here), behind]
      exact ⟨_, rfl⟩

theorem exists_ofText {row : List Mark} (closed : ∀ m ∈ row, m.Closed) :
    ∃ q, ofText (row.flatMap Mark.text) = .ok q := by
  obtain ⟨read, taken⟩ := exists_outside closed 0
  exact ⟨_, Outcome.map_ok.mpr ⟨read, taken, rfl⟩⟩

theorem partsAt_plain {α : Type} {isKeyword : α → Bool} {words : List α}
    (plain : ∀ w ∈ words, isKeyword w = false) (part : List α) :
    partsAt isKeyword part words = [part ++ words] := by
  induction words generalizing part with
  | nil => rw [partsAt, List.append_nil]
  | cons w words ih =>
    obtain ⟨here, later⟩ := List.forall_mem_cons.mp plain
    rw [partsAt, here, Bool.false_and, Bool.false_and, if_neg Bool.false_ne_true, ih later,
      List.append_assoc, List.singleton_append]

structure Free (word : List Char) : Prop where
  given : word ≠ []
  noBlank : Text.NoBlank word
  apart : ∃ c ∈ word, c.toNat < 65

theorem Free.append {word more : List Char} (free : Free word) (noBlank : Text.NoBlank more) :
    Free (word ++ more) := by
  obtain ⟨c, inside, low⟩ := free.apart
  exact ⟨by simp [free.given], free.noBlank.append noBlank, c, List.mem_append_left _ inside, low⟩

theorem Free.not_keyword {word : List Char} (free : Free word) {keyword : List Char}
    (letters : keyword.all (65 ≤ ·.toNat) = true) :
    (word.map Text.upperAscii == keyword) = false := by
  obtain ⟨c, inside, low⟩ := free.apart
  have same : Text.upperAscii c = c := if_neg (by omega)
  rw [beq_eq_false_iff_ne]
  rintro rfl
  have high := List.all_eq_true.mp letters c (List.mem_map.mpr ⟨c, inside, same⟩)
  rw [decide_eq_true_eq] at high
  omega

theorem conjunction_free [Libraries] (t : SearchTarget) {words : List (List Char)}
    (free : ∀ w ∈ words, Free w) :
    Text.collapse (Text.join [' '] words) = Text.join [' '] words ∧
      t.conjunction (Text.join [' '] words) = t.predicate (Text.join [' '] words) := by
  have plain : ∀ w ∈ words, w ≠ [] ∧ Text.NoBlank w := fun w listed =>
    ⟨(free w listed).given, (free w listed).noBlank⟩
  have whole : ∀ keyword, Text.NoBlank keyword → keyword.all (65 ≤ ·.toNat) = true →
      split (' ' :: (keyword ++ [' '])) (Text.join [' '] words) = [Text.join [' '] words] := by
    intro keyword noBlank letters
    rw [split_words noBlank plain,
      partsAt_plain (fun w listed => (free w listed).not_keyword letters) [], List.nil_append]
    rfl
  have ends := Text.join_ends plain
  refine ⟨by rw [Text.collapse, Text.words_join plain], ?_⟩
  have groups : split conjunctionKeyword (Text.join [' '] words) = [Text.join [' '] words] :=
    whole ['A', 'N', 'D'] (by decide) rfl
  have clauses : split disjunctionKeyword (Text.join [' '] words) = [Text.join [' '] words] :=
    whole ['O', 'R'] (by decide) rfl
  rw [SearchTarget.conjunction, groups]
  change t.disjunction _ = _
  rw [SearchTarget.disjunction, clauses]
  change t.predicate (Text.trim _) = _
  rw [Text.trim_of_ends ends.1 ends.2]

theorem exists_comparison {name : List Char} (writable : Writable name) (sign : Written.Sign)
    (runs : List Run) : ∃ q items, ofText (name ++ (sign.text ++ runsText runs)) = .ok q ∧
      items.map Prod.snd = runs ∧ Held q.constants (runsMarks items) ∧
      q.search = Text.collapse (name ++ (sign.text ++ place (runsMarks items))) := by
  let row (items : List (Nat × Run)) : List Mark :=
    name.map .char ++ (sign.text.map .char ++ runsMarks items)
  have text : ∀ items, (row items).flatMap Mark.text =
      name ++ (sign.text ++ runsText (items.map Prod.snd)) := by
    intro items
    rw [List.flatMap_append, List.flatMap_append, flatMap_char, flatMap_char,
      Written.text_runsMarks]
  have closed : ∀ items, ∀ m ∈ row items, m.Closed := by
    intro items m listed
    simp only [row, List.mem_append, List.mem_map] at listed
    rcases listed with ⟨c, inside, rfl⟩ | ⟨c, inside, rfl⟩ | inside
    · rintro rfl
      exact writable.noQuote inside
    · rintro rfl
      cases sign <;> exact absurd inside (by decide)
    · exact Written.closed_runsMarks items m inside
  obtain ⟨q, read⟩ := exists_ofText (closed (Written.unnumbered runs))
  rw [text, Written.map_snd_unnumbered] at read
  obtain ⟨search, collapsed, whole, placed, -⟩ := marked_of_read read
  have held := held_marks read
  have same : SameText (row (Written.unnumbered runs))
      (marksOutside 0 (name ++ (sign.text ++ runsText runs))) :=
    sameText_of_text (closed _) (closed_marks read)
      (by rw [text, Written.map_snd_unnumbered, whole])
  obtain ⟨front, rest, split, nameSame, behind⟩ := same.of_append rfl
  obtain ⟨middle, marks, rfl, signSame, last⟩ := behind.of_append rfl
  obtain ⟨items, numbered, rfl⟩ := Written.runsMarks_of_sameText last
  have bare : ∀ s : List Char, ∀ m ∈ s.map Mark.char, m.isLiteral = false := by
    intro s m listed
    obtain ⟨c, -, rfl⟩ := List.mem_map.mp listed
    rfl
  rw [nameSame.eq_of_bare (bare _), signSame.eq_of_bare (bare _)] at split
  rw [split] at held placed
  refine ⟨q, items, read, numbered.trans (Written.map_snd_unnumbered runs), ?_, ?_⟩
  · exact held.part ((List.suffix_append ..).trans (List.suffix_append ..)).isInfix
  · rw [collapsed, placed, place_append, place_append, place_char, place_char]

def comparisonWords (front : List Char) : List (Nat × Run) → List (List Char)
  | [] => [front]
  | x :: items => (front ++ place (x.2.marks x.1)) :: items.map fun x => place (x.2.marks x.1)

theorem join_comparisonWords (front : List Char) (items : List (Nat × Run)) :
    Text.join [' '] (comparisonWords front items) = front ++ place (runsMarks items) := by
  cases items with
  | nil => exact (List.append_nil front).symm
  | cons x items =>
    rw [comparisonWords, runsMarks, ← join_place, List.map_cons, List.map_cons, List.map_map,
      Text.join_cons, Text.join_cons, List.append_assoc]
    rfl

theorem free_comparisonWords {name : List Char} (word : Text.NoBlank name) (sign : Written.Sign)
    (items : List (Nat × Run)) : ∀ w ∈ comparisonWords (name ++ sign.text) items, Free w := by
  have front : Free (name ++ sign.text) := by
    cases sign <;> exact ⟨by simp [Written.Sign.text], word.append (by decide), _,
      List.mem_append_right _ (List.mem_cons_self ..), by decide⟩
  have runFree : ∀ x : Nat × Run, Free (place (x.2.marks x.1)) := by
    intro x
    obtain ⟨c, rest, text, first⟩ := x.2.exists_first x.1 []
    rw [List.append_nil] at text
    refine ⟨x.2.place_marks_ne_nil x.1, noBlank_place Run.noBlank_marks, c,
      text ▸ List.mem_cons_self .., ?_⟩
    rcases first with digit | ⟨rfl, -⟩
    · simp only [Text.isDigit, Bool.and_eq_true, decide_eq_true_eq] at digit
      omega
    · decide
  cases items with
  | nil => exact List.forall_mem_singleton.mpr front
  | cons x items =>
    refine List.forall_mem_cons.mpr ⟨front.append (noBlank_place Run.noBlank_marks), ?_⟩
    intro w listed
    obtain ⟨y, -, rfl⟩ := List.mem_map.mp listed
    exact runFree y

theorem predicateParts_runsMarks {name : List Char} (writable : Writable name)
    (sign : Written.Sign) {items : List (Nat × Run)} (given : items ≠ []) :
    predicateParts (name ++ (sign.text ++ place (runsMarks items))) =
      .ok (name, sign.comparator, place (runsMarks items)) := by
  obtain ⟨x, items, rfl⟩ := List.exists_cons_of_ne_nil given
  obtain ⟨c, rest, text, first⟩ :=
    x.2.exists_first x.1 (items.flatMap fun x => .char ' ' :: x.2.marks x.1)
  rw [← Written.runsMarks_cons] at text
  refine predicateParts_text sign writable.given writable.trimmed writable.noOperator text ?_
    (Operand.trim_runsMarks _)
  rw [Bool.eq_false_iff]
  intro operator
  have number := Comparator.toNat_of_isOperatorChar operator
  rcases first with digit | ⟨rfl, -⟩
  · simp only [Text.isDigit, Bool.and_eq_true, decide_eq_true_eq] at digit
    omega
  · contradiction

/-- A query of one comparison with a mixed literal compiles to the comparison with its bytes, unless
the literal is too large. -/
theorem exists_compiled [Libraries] {runs : List Run} (mixed : Written.Mixed runs)
    {order : ByteOrder}
    {segments : List (List UInt8)} (denoted : List.Forall₂ (Run.Denotes order) runs segments)
    {name : List Char} (writable : Writable name) (word : Text.NoBlank name) (sign : Written.Sign)
    {platform : Platform} {d : Definition} {field : FieldType}
    (found : d.field (String.ofList name) = .ok field) :
    ∃ q, ofText (name ++ (sign.text ++ runsText runs)) = .ok q ∧
      Bounded (Written.TooLarge 0 runs segments) (fun fault => fault.code = 171)
        (q.compile platform d order)
        ((bytesPredicate platform field name sign.comparator segments.flatten).map fun p =>
          ⟨.leaf p, platform.isMainframe, order⟩) := by
  obtain ⟨q, items, read, rfl, held, search⟩ := exists_comparison writable sign runs
  have given : items ≠ [] := by
    rintro rfl
    rcases mixed with ⟨h, rest, first⟩ | ⟨several, -⟩
    · cases first
    · simp at several
  obtain ⟨collapsed, conjunction⟩ := conjunction_free ⟨platform, d, order, q.constants⟩
    (free_comparisonWords word sign items)
  rw [join_comparisonWords, List.append_assoc] at collapsed conjunction
  have compiled : q.compile platform d order =
      (SearchTarget.predicate ⟨platform, d, order, q.constants⟩
        (name ++ (sign.text ++ place (runsMarks items)))).map fun root =>
          ⟨root, platform.isMainframe, order⟩ := by
    rw [← conjunction, ← collapsed, ← search]
    rfl
  have parts := predicateParts_runsMarks writable sign given
  have predicate := SearchTarget.predicate_runsMarks
    (t := ⟨platform, d, order, q.constants⟩) mixed held denoted parts found
  have tree := predicate.map fun root => (⟨root, platform.isMainframe, order⟩ : SearchTree)
  refine ⟨q, read, ?_⟩
  rw [compiled]
  cases value : bytesPredicate platform field name sign.comparator segments.flatten <;>
    rw [value] at tree <;> exact tree

/-- Mixed literals denote their runs one after another. As the only comparison of a query, one
compiles to the comparison with these bytes; wherever it stands in a predicate, also as a bound of a
range, it is read as these bytes, and as the operand of a comparison it is compared so. It is an
ill-formed literal exactly if ten times a number is too large or the bytes up to a hexadecimal run
are too many. -/
theorem mixed_literals_compile [Libraries] {runs : List Run} (mixed : Written.Mixed runs)
    (order : ByteOrder) :
    ∃ segments, (∀ others, List.Forall₂ (Run.Denotes order) runs others ↔ others = segments) ∧
      (∀ platform field name comparator fault,
        bytesPredicate platform field name comparator segments.flatten = .error fault →
          fault.code ≠ 171) ∧
      (∀ (name : List Char) (sign : Written.Sign) (platform : Platform) (d : Definition)
        (field : FieldType), Writable name → Text.NoBlank name →
        d.field (String.ofList name) = .ok field →
        ∃ q, ofText (name ++ (sign.text ++ runsText runs)) = .ok q ∧
          Bounded (Written.TooLarge 0 runs segments) (fun fault => fault.code = 171)
            (q.compile platform d order)
            ((bytesPredicate platform field name sign.comparator segments.flatten).map fun p =>
              ⟨.leaf p, platform.isMainframe, order⟩)) ∧
      ∀ (s : List Char) (q : Query) (row : List Mark), ofText s = .ok q →
        row ∈ predicateMarks s →
        (∀ part, part <:+: row → part.flatMap Mark.text = runsText runs →
          Bounded (Written.TooLarge 0 runs segments) (fun fault => fault.code = 171)
            (Operand.ofText order q.constants (place part)) (.ok (.bytes segments.flatten))) ∧
        ∀ (name operand : List Char) (comparator : Comparator) (platform : Platform)
          (d : Definition) (field : FieldType),
          predicateParts (place row) = .ok (name, comparator, operand) →
          (operandOf row).flatMap Mark.text = runsText runs →
          d.field (String.ofList name) = .ok field →
          Bounded (Written.TooLarge 0 runs segments) (fun fault => fault.code = 171)
            (SearchTarget.predicate ⟨platform, d, order, q.constants⟩ (place row))
            ((bytesPredicate platform field name comparator segments.flatten).map .leaf) := by
  obtain ⟨segments, denoted⟩ := Written.exists_segments order runs
  refine ⟨segments, Written.denoted_iff denoted, fun _ _ _ _ _ => code_bytesPredicate,
    fun name sign platform d field writable word found =>
      exists_compiled mixed denoted writable word sign found, fun s q row read listed => ?_⟩
  have known {part : List Mark} (inside : part <:+: row)
      (text : part.flatMap Mark.text = runsText runs) : ∃ items : List (Nat × Run),
        items.map Prod.snd = runs ∧ part = runsMarks items ∧
          Held q.constants (runsMarks items) := by
    obtain ⟨items, numbered, rfl⟩ := Written.runsMarks_of_text
      (fun m among => closed_predicateMarks read listed m (inside.subset among)) text
    exact ⟨items, numbered, rfl, (held_predicateMarks read listed).part inside⟩
  constructor
  · intro part inside text
    obtain ⟨items, rfl, rfl, held⟩ := known inside text
    exact Operand.ofText_runsMarks mixed denoted held
  · intro name operand comparator platform d field parts text found
    obtain ⟨items, rfl, marks, held⟩ := known (operandOf_inside row) text
    obtain ⟨-, rfl, -⟩ := of_predicateParts parts
    rw [marks] at parts
    exact SearchTarget.predicate_runsMarks mixed held denoted parts found

namespace Sample

def mixedRuns : List Run :=
  [.hex ⟨[('4', 'a'), ('4', 'B')], some ⟨['2'], by decide, by decide⟩, by decide, by decide,
      fun k given => by cases given; decide⟩,
    .quoted ⟨"O\\'N".toList, (endsAtQuote_iff _).mp (by decide)⟩,
    .number ⟨"101".toList, by decide, by decide⟩]

def mixedSegments : List (List UInt8) :=
  [[0x4A, 0x4B, 0x4A, 0x4B], [0x4F, 0x27, 0x4E], [0x03, 0xF2]]

def largeRuns : List Run :=
  [.quoted ⟨['a'], (endsAtQuote_iff _).mp (by decide)⟩,
    .number ⟨"1844674407370955162".toList, by decide, by decide⟩]

def lettersAre (name : String) (bytes : List UInt8) : Predicate :=
  ⟨name, .equal,
    .leaf ⟨.top (letterField name) .openSystem, .text .short false (.whole bytes)⟩⟩

end Sample

/-- The runs of one query have a value, ten times the number of the other is too large. -/
theorem mixed_runs_compiled :
    Written.Mixed Sample.mixedRuns ∧ Written.Mixed Sample.largeRuns ∧
      runsText Sample.mixedRuns = "0x4a4B(2) 'O\\'N' 101".toList ∧
      runsText Sample.largeRuns = "'a' 1844674407370955162".toList ∧
      List.Forall₂ (Run.Denotes .big) Sample.mixedRuns Sample.mixedSegments ∧
      Query.compile ⟨"AA=0x4a4B(2) #\x7b1\x7d 101".toList, ["O\\'N".toList]⟩ .openSystem
        lettersDefinition .big = .ok ⟨.leaf (Sample.lettersAre "AA"
          [0x4A, 0x4B, 0x4A, 0x4B, 0x4F, 0x27, 0x4E, 0x03, 0xF2]), false, .big⟩ ∧
      ∃ fault, Query.compile ⟨"AA=#\x7b1\x7d 1844674407370955162".toList, [['a']]⟩ .openSystem
        lettersDefinition .big = .error fault ∧ fault.code = 171 := by
  have mixed : Written.Mixed Sample.mixedRuns := .inl ⟨_, _, rfl⟩
  have large : Written.Mixed Sample.largeRuns := .inr ⟨by decide, _, List.mem_cons_self ..⟩
  have name : Writable ['A', 'A'] := ⟨by decide, rfl, by decide, by decide⟩
  have number : ByteOrder.Shortest .big 1010 [0x03, 0xF2] :=
    ByteOrder.shortest_leastBytes .big 1010
  have meant : List.Forall₂ (Run.Denotes .big) Sample.mixedRuns Sample.mixedSegments :=
    .cons (.hex _) (.cons (.quoted _) (.cons (.number _ number) .nil))
  have small : ¬Written.TooLarge 0 Sample.mixedRuns Sample.mixedSegments := by
    rw [Sample.mixedRuns, Sample.mixedSegments, Written.tooLarge_cons, Written.tooLarge_cons,
      Written.tooLarge_cons]
    rintro (large | large | large | rest)
    · exact absurd large (by decide)
    · exact absurd large (by decide)
    · exact absurd large (by decide)
    · exact Written.not_tooLarge_nil rest
  obtain ⟨segments, denoted, -, alone, -⟩ := mixed_literals_compile mixed .big
  cases (denoted _).mp meant
  obtain ⟨q, read, compiled⟩ := alone ['A', 'A'] .equal .openSystem lettersDefinition
    (letterField "AA") name (by decide) rfl
  obtain rfl : q = ⟨"AA=0x4a4B(2) #\x7b1\x7d 101".toList, ["O\\'N".toList]⟩ :=
    Except.ok.inj (read.symm.trans rfl)
  obtain ⟨segments', -, -, alone', -⟩ := mixed_literals_compile large .big
  obtain ⟨q', read', compiled'⟩ := alone' ['A', 'A'] .equal .openSystem lettersDefinition
    (letterField "AA") name (by decide) rfl
  obtain rfl : q' = ⟨"AA=#\x7b1\x7d 1844674407370955162".toList, [['a']]⟩ :=
    Except.ok.inj (read'.symm.trans rfl)
  have exceeds : Written.TooLarge 0 Sample.largeRuns segments' :=
    .inl ⟨_, List.mem_cons_of_mem _ (List.mem_cons_self ..), by decide⟩
  exact ⟨mixed, large, rfl, rfl, meant, (compiled.kept small).trans rfl, compiled'.refused exceeds⟩

end Query

end RecordCodec
