import RecordCodec.Proofs.Search.Renumbering

/-!
Operands under other numbers. Two operands that are one text, each with the literals of its own
query, stand for the same scalar: a run of a mixed literal is read from characters that both have or
from a literal that both hold, and leaves two rests that are one text again.
-/
namespace RecordCodec

namespace Text

theorem mem_dropWhile {p : Char → Bool} {s : List Char} {c : Char} (listed : c ∈ s)
    (stops : p c = false) : c ∈ s.dropWhile p := by
  rw [← List.takeWhile_append_dropWhile (p := p) (l := s)] at listed
  rcases List.mem_append.mp listed with passed | behind
  · rw [List.mem_takeWhile_imp passed] at stops
    cases stops
  · exact behind

theorem mem_trim {s : List Char} {c : Char} (listed : c ∈ s) (plain : isBlank c = false) :
    c ∈ trim s :=
  List.mem_reverse.mpr (mem_dropWhile (List.mem_reverse.mpr (mem_dropWhile listed plain)) plain)

theorem readUnsigned?_trim_eq_none {s : List Char} {c : Char} (listed : c ∈ s)
    (plain : isBlank c = false) (plus : c ≠ '+') (other : isDigit c = false) :
    readUnsigned? (trim s) = none := by
  have none : ∀ rest : List Char, c ∈ rest → readNat? rest = none := by
    intro rest inside
    have some : ¬rest.all isDigit = true := by
      intro all
      rw [List.all_eq_true.mp all c inside] at other
      cases other
    simp [readNat?, some]
  have kept := mem_trim listed plain
  unfold readUnsigned?
  split
  · rename_i rest text
    rw [text] at kept
    refine none rest ?_
    rcases List.mem_cons.mp kept with same | later
    · exact absurd same plus
    · exact later
  · exact none _ kept

end Text

namespace Operand

open Mark

section Runs

variable {order : ByteOrder} {constants constants' : List (List Char)}

theorem of_upTo? {c : Char} {s a b : List Char} (h : upTo? c s = some (a, b)) :
    s.dropWhile (· != c) ≠ [] ∧ a = s.takeWhile (· != c) ∧ b = (s.dropWhile (· != c)).tail := by
  induction s generalizing a b with
  | nil => cases h
  | cons d s ih =>
    rw [upTo?] at h
    split at h
    · rename_i same
      cases h
      simp [same]
    · rename_i other
      obtain ⟨⟨a', b'⟩, found, rest⟩ := Option.map_eq_some_iff.mp h
      cases rest
      obtain ⟨some, rfl, rfl⟩ := ih found
      simpa [other] using some

theorem upTo?_eq_some {c : Char} {s : List Char} (found : s.dropWhile (· != c) ≠ []) :
    upTo? c s = some (s.takeWhile (· != c), (s.dropWhile (· != c)).tail) := by
  induction s with
  | nil => exact absurd rfl found
  | cons d s ih =>
    by_cases same : d = c
    · simp [upTo?, same]
    · have other : (d != c) = true := bne_iff_ne.mpr same
      rw [List.dropWhile_cons_of_pos (p := (· != c)) other] at found
      rw [upTo?, if_neg same, ih found, List.dropWhile_cons_of_pos (p := (· != c)) other,
        List.takeWhile_cons_of_pos (p := (· != c)) other]
      rfl

theorem upTo?_append {c : Char} {front : List Char} (apart : ∀ d ∈ front, d ≠ c)
    (rest : List Char) : upTo? c (front ++ c :: rest) = some (front, rest) := by
  induction front with
  | nil => simp [upTo?]
  | cons d front ih =>
    obtain ⟨here, later⟩ := List.forall_mem_cons.mp apart
    rw [List.cons_append, upTo?, if_neg here, ih later]
    rfl

theorem readUnsigned?_place {row : List Mark} {number : Nat} {raw : List Char}
    (listed : .literal number raw ∈ row) : Text.readUnsigned? (Text.trim (place row)) = none :=
  Text.readUnsigned?_trim_eq_none (List.mem_flatMap.mpr ⟨_, listed, List.mem_cons_self ..⟩)
    (by decide) (by decide) (by decide)

def RestsAlike (as bs : List Mark) (s s' : List Char) : Prop :=
  ∃ as' bs', s = place as' ∧ s' = place bs' ∧ SameText as' bs' ∧ as' <:+ as ∧ bs' <:+ bs

theorem RestsAlike.of_suffix {as bs whole whole' : List Mark} {s s' : List Char}
    (rests : RestsAlike as bs s s') (part : as <:+ whole) (part' : bs <:+ whole') :
    RestsAlike whole whole' s s' := by
  obtain ⟨as', bs', rest, rest', same, inner, inner'⟩ := rests
  exact ⟨as', bs', rest, rest', same, inner.trans part, inner'.trans part'⟩

theorem restsAlike_of_sameText {as bs : List Mark} (same : SameText as bs) :
    RestsAlike as bs (place as) (place bs) :=
  ⟨as, bs, rfl, rfl, same, List.suffix_refl _, List.suffix_refl _⟩

theorem of_repeatCount {s s' : List Char} {n : Nat} (h : repeatCount s = .ok (n, s')) :
    (∃ rest digits m, s = '(' :: rest ∧ upTo? ')' rest = some (digits, s') ∧ n = m + 1 ∧
      Text.readNatUpTo? (UInt64.size - 1) (Text.trim digits) = some (m + 1)) ∨
      (∀ rest, s ≠ '(' :: rest) ∧ n = 1 ∧ s' = s := by
  unfold repeatCount at h
  split at h
  · rename_i rest
    split at h
    · cases h
    · rename_i digits behind found
      split at h
      · rename_i m count
        cases h
        exact .inl ⟨rest, digits, m, rfl, found, rfl, count⟩
      · cases h
  · rename_i other
    cases h
    exact .inr ⟨fun rest same => other rest same, rfl, rfl⟩

theorem repeatCount_count {rest digits s : List Char} {m : Nat}
    (found : upTo? ')' rest = some (digits, s))
    (count : Text.readNatUpTo? (UInt64.size - 1) (Text.trim digits) = some (m + 1)) :
    repeatCount ('(' :: rest) = .ok (m + 1, s) := by
  simp only [repeatCount, found, count]

theorem repeatCount_none {s : List Char} (other : ∀ rest, s ≠ '(' :: rest) :
    repeatCount s = .ok (1, s) := by
  unfold repeatCount
  split
  · exact absurd rfl (other _)
  · rfl

section Counts

variable {as bs : List Mark} (same : SameText as bs)
include same

theorem repeatCount_place {n : Nat} {s : List Char} (h : repeatCount (place as) = .ok (n, s)) :
    ∃ s', repeatCount (place bs) = .ok (n, s') ∧ RestsAlike as bs s s' := by
  rcases of_repeatCount h with ⟨rest, digits, m, text, found, rfl, count⟩ | ⟨other, rfl, rfl⟩
  · obtain ⟨as', rfl, rfl⟩ := of_place_cons (by decide) text
    obtain ⟨bs', rfl, inner⟩ := same.of_char rfl
    have uniform : Uniform (· != ')') := uniform_ne (by decide)
    obtain ⟨some, rfl, rfl⟩ := of_upTo? found
    rw [takeWhile_place uniform] at count
    have bare : ∀ m ∈ as'.takeWhile (sat (· != ')')), m.isLiteral = false := by
      intro m listed
      cases m with
      | char => rfl
      | literal number raw =>
        rw [Text.readNatUpTo?, readUnsigned?_place listed] at count
        cases count
    have some' : (place bs').dropWhile (· != ')') ≠ [] := by
      rw [dropWhile_place uniform, ne_eq, ← List.isEmpty_iff, place_isEmpty] at some ⊢
      rwa [← (inner.dropWhile _).isEmpty_eq]
    rw [← (inner.takeWhile _).eq_of_bare bare, ← takeWhile_place uniform] at count
    have counted : repeatCount (place (char '(' :: bs')) =
        .ok (m + 1, ((place bs').dropWhile (· != ')')).tail) :=
      repeatCount_count (upTo?_eq_some some') count
    refine ⟨_, counted, ?_⟩
    rw [tail_dropWhile_place uniform (by decide), tail_dropWhile_place uniform (by decide)]
    have behind : ∀ row : List Mark,
        (row.dropWhile (sat (· != ')'))).tail <:+ char '(' :: row := fun row =>
      ((List.tail_suffix _).trans (List.dropWhile_suffix _)).trans (List.suffix_cons ..)
    exact (restsAlike_of_sameText (inner.dropWhile _).tail).of_suffix (behind _) (behind _)
  · refine ⟨place bs, repeatCount_none fun rest text => ?_, restsAlike_of_sameText same⟩
    obtain ⟨bs', rfl, rfl⟩ := of_place_cons (by decide) text
    obtain ⟨as', rfl, -⟩ := same.symm.of_char rfl
    exact other _ rfl

theorem hexRun_place {before : Nat} {bytes : List UInt8} {s : List Char}
    (h : hexRun before (place as) = .ok (bytes, s)) :
    ∃ s', hexRun before (place bs) = .ok (bytes, s') ∧ RestsAlike as bs s s' := by
  have stops : isHexDigit '#' = false := by decide
  have digits := (same.takeWhile isHexDigit).eq_of_bare (bare_takeWhile stops as)
  unfold hexRun at h ⊢
  rw [takeWhile_place (.inl stops), dropWhile_place (.inl stops)] at h ⊢
  rw [digits]
  split at h
  · split at h
    · cases h
    · rename_i count rest counted
      obtain ⟨small, h⟩ := Outcome.unless_ok.mp h
      cases h
      obtain ⟨rest', counted', rests⟩ := repeatCount_place (same.dropWhile isHexDigit) counted
      refine ⟨rest', ?_, rests.of_suffix (List.dropWhile_suffix _) (List.dropWhile_suffix _)⟩
      rw [counted']
      exact if_neg small
  · cases h

theorem numberRun_place {bytes : List UInt8} {s : List Char}
    (h : numberRun order (place as) = .ok (bytes, s)) :
    ∃ s', numberRun order (place bs) = .ok (bytes, s') ∧ RestsAlike as bs s s' := by
  have stops : Text.isDigit '#' = false := by decide
  have digits := (same.takeWhile Text.isDigit).eq_of_bare (bare_takeWhile stops as)
  unfold numberRun at h ⊢
  rw [takeWhile_place (.inl stops), dropWhile_place (.inl stops)] at h ⊢
  obtain ⟨small, h⟩ := Outcome.unless_ok.mp h
  cases h
  rw [digits]
  exact ⟨_, if_neg small, (restsAlike_of_sameText (same.dropWhile _)).of_suffix
    (List.dropWhile_suffix _) (List.dropWhile_suffix _)⟩

end Counts

theorem constantRun_literal {row : List Mark} {number : Nat} {raw : List Char}
    (held : Held constants (literal number raw :: row)) :
    constantRun constants (Text.ofNat number ++ '}' :: place row) =
      .ok (Utf8.encode (unescape raw), place row) := by
  have noClose : ∀ c ∈ Text.ofNat number, c ≠ '}' := by
    rintro c listed rfl
    exact absurd (Text.isDigit_of_mem_ofNat listed) (by decide)
  obtain ⟨j, rfl, found⟩ := held number raw (List.mem_cons_self ..)
  have known : constant? constants (Text.ofNat (j + 1)) = some raw := by
    simp [constant?, Text.trim_of_noBlank (Text.noBlank_ofNat _), Text.readUnsigned?_ofNat, found]
  rw [constantRun, upTo?_append noClose]
  dsimp only
  rw [known]

theorem run_place {as bs : List Mark} {c : Char} {before : Nat} {bytes : List UInt8} {s : List Char}
    (all : Renumbered constants constants' (char c :: as) (char c :: bs))
    (h : run order constants before c (place as) = .ok (bytes, s)) :
    ∃ s', run order constants' before c (place bs) = .ok (bytes, s') ∧
      RestsAlike (char c :: as) (char c :: bs) s s' := by
  have same : SameText as bs := (List.cons.inj all.same).2
  unfold run at h ⊢
  rw [← same.head?_eq]
  split at h
  · rename_i hex
    rw [if_pos hex]
    have letter : ∃ x as', as = char x :: as' := by
      rcases hex.2 with lower | upper
      · exact ⟨_, of_head? (by decide) lower⟩
      · exact ⟨_, of_head? (by decide) upper⟩
    obtain ⟨x, as', rfl⟩ := letter
    obtain ⟨bs', rfl, later⟩ := same.of_char rfl
    obtain ⟨rest, read, rests⟩ := hexRun_place later h
    have two : ∀ row : List Mark, row <:+ char c :: char x :: row := fun row =>
      (List.suffix_cons ..).trans (List.suffix_cons ..)
    exact ⟨rest, read, rests.of_suffix (two _) (two _)⟩
  · rename_i noHex
    rw [if_neg noHex]
    split at h
    · rename_i marker
      -- The text itself opens a placeholder, whose number would be looked up in both queries.
      obtain ⟨as', rfl⟩ := of_head? (by decide) marker.2
      rw [marker.1] at all
      exact absurd ⟨[], as', rfl⟩ all.unmarked
    · rename_i noMarker
      rw [if_neg noMarker]
      split at h
      · rename_i digit
        rw [if_pos digit]
        exact numberRun_place all.same h
      · rename_i noDigit
        rw [if_neg noDigit]
        split at h
        · rename_i blank
          rw [if_pos blank]
          cases h
          exact ⟨_, rfl, (restsAlike_of_sameText same).of_suffix (List.suffix_cons ..)
            (List.suffix_cons ..)⟩
        · cases h

theorem mixedFrom_place (size : Nat) {as bs : List Mark} (short : (place as).length < size)
    (all : Renumbered constants constants' as bs) {before bytes : List UInt8}
    (h : mixedFrom order constants before (place as) = .ok bytes) :
    mixedFrom order constants' before (place bs) = .ok bytes := by
  -- Each run leaves a shorter text, and what two runs leave is one text again.
  induction size generalizing as bs before with
  | zero => exact absurd short (Nat.not_lt_zero _)
  | succ size ih =>
    cases as with
    | nil =>
      rw [all.same.of_nil rfl]
      rw [place, List.flatMap_nil, mixedFrom] at h ⊢
      exact h
    | cons a as =>
      obtain ⟨b, bs, rfl, here, later⟩ := all.same.of_cons rfl
      have rest : Renumbered constants constants' as bs :=
        all.part later (List.suffix_cons ..).isInfix (List.suffix_cons ..).isInfix
      cases a with
      | literal number raw =>
        obtain ⟨number', rfl⟩ := eq_literal_of_text here
        have read : ∀ {cs : List (List Char)} {n : Nat} {row : List Mark},
            Held cs (literal n raw :: row) → mixedFrom order cs before
              (place (literal n raw :: row)) =
                mixedFrom order cs (before ++ Utf8.encode (unescape raw)) (place row) := by
          intro cs n row held
          rw [place_literal, mixedFrom_cons, run, if_neg (by simp), if_pos ⟨rfl, rfl⟩,
            List.tail_cons, constantRun_literal held]
          rfl
        rw [read all.held] at h
        rw [read all.held']
        refine ih ?_ rest h
        rw [place_cons, List.length_append] at short
        have some := List.length_pos_iff.mpr (placed_ne_nil (literal number raw))
        omega
      | char c =>
        rw [eq_char_of_text here] at all ⊢
        rw [place_cons, placed, List.singleton_append, mixedFrom_cons] at h ⊢
        obtain ⟨⟨first, s⟩, ran, h⟩ := Outcome.bind_ok.mp h
        have shorter := (run_suffix ran).length_le
        obtain ⟨s', ran', as', bs', rfl, rfl, texts, part, part'⟩ := run_place all ran
        refine Outcome.bind_ok.mpr ⟨_, ran', ih ?_ (all.part texts part.isInfix part'.isInfix) h⟩
        rw [place_cons, List.length_append] at short
        simp only [placed, List.length_singleton] at short
        omega

end Runs

theorem bare_of_noPlaceholder {row : List Mark} (h : hasPlaceholder (place row) = false) :
    ∀ m ∈ row, m.isLiteral = false := by
  have tail : ∀ (c : Char) (s : List Char), hasPlaceholder (c :: s) = false →
      hasPlaceholder s = false := by
    intro c s none
    rw [hasPlaceholder.eq_def] at none
    split at none
    · cases none
    · rename_i same
      cases same
      exact none
    · rename_i same
      cases same
  induction row with
  | nil => exact fun m listed => by cases listed
  | cons m row ih =>
    cases m with
    | literal number raw => cases h
    | char c => exact List.forall_mem_cons.mpr ⟨rfl, ih (tail c _ h)⟩

/-- What looks like one placeholder and is not the placeholder of a literal stands for none. -/
theorem constant?_of_several {row : List Mark} (unmarked : Unmarked row)
    (several : ∀ number raw, row ≠ [literal number raw]) {inside : List Char}
    (h : placeholder? (place row) = some inside) (constants : List (List Char)) :
    constant? constants inside = none := by
  cases row with
  | nil => cases h
  | cons m row =>
    cases m with
    | char c =>
      unfold placeholder? at h
      split at h
      · rename_i rest text
        obtain ⟨rfl, behind⟩ := List.cons.inj text
        obtain ⟨row', rfl, -⟩ := of_place_cons (by decide) behind
        exact absurd ⟨[], row', rfl⟩ unmarked
      · cases h
    | literal number raw =>
      have some : place row ≠ [] := by
        cases row with
        | nil => exact absurd rfl (several number raw)
        | cons m row => simp [place_cons, placed_ne_nil]
      rw [place_literal, placeholder?] at h
      split at h
      · rw [← Option.some.inj h, List.dropLast_append_of_ne_nil (by simp),
          List.dropLast_cons_of_ne_nil some, constant?,
          Text.readUnsigned?_trim_eq_none (c := '}') (by simp) (by decide) (by decide) (by decide)]
      · cases h

theorem mem_place_of_sameText {as bs : List Mark} (same : SameText as bs) {c : Char}
    (other : Text.isDigit c = false) (listed : c ∈ place as) : c ∈ place bs := by
  obtain ⟨m, inside, here⟩ := List.mem_flatMap.mp listed
  obtain ⟨m', inside', text⟩ := List.mem_map.mp (same ▸ List.mem_map_of_mem (f := Mark.text) inside)
  refine List.mem_flatMap.mpr ⟨m', inside', ?_⟩
  cases m with
  | char d => rwa [eq_char_of_text text.symm]
  | literal number raw =>
    obtain ⟨number', rfl⟩ := eq_literal_of_text text.symm
    rcases mem_placeholder here with rfl | rfl | rfl | digit
    · simp [placed, Query.placeholder]
    · simp [placed, Query.placeholder]
    · simp [placed, Query.placeholder]
    · rw [other] at digit
      cases digit

def single? (s : List Char) : Option (List Char) :=
  (placeholder? s).filter fun inside => !inside.contains '{'

theorem single?_char {c : Char} {row : List Mark} (unmarked : Unmarked (char c :: row)) :
    single? (place (char c :: row)) = none := by
  unfold single? placeholder?
  split
  · rename_i rest text
    obtain ⟨rfl, behind⟩ := List.cons.inj text
    obtain ⟨row', rfl, -⟩ := of_place_cons (by decide) behind
    exact absurd ⟨[], row', rfl⟩ unmarked
  · rfl

theorem single?_literal {number : Nat} {raw : List Char} {row : List Mark} :
    single? (place (literal number raw :: row)) = none ↔
      row ≠ [] ∧ ((place row).getLast? = some '}' → '{' ∈ place row) := by
  have digits : '{' ∉ Text.ofNat number := fun brace =>
    absurd (Text.isDigit_of_mem_ofNat brace) (by decide)
  rw [single?, place_literal, placeholder?]
  cases row with
  | nil =>
    have closes : (Text.ofNat number ++ '}' :: place []).getLast? = some '}' :=
      List.getLast?_concat
    have inside : (Text.ofNat number ++ '}' :: place []).dropLast = Text.ofNat number :=
      List.dropLast_concat
    rw [if_pos closes, inside]
    simp [digits]
  | cons m row =>
    have some : place (m :: row) ≠ [] := by simp [place_cons, placed_ne_nil]
    generalize place (m :: row) = behind at some ⊢
    rw [List.getLast?_append_of_ne_nil _ (by simp), List.getLast?_cons_of_ne_nil some]
    by_cases closes : behind.getLast? = Option.some '}'
    · obtain ⟨front, rfl⟩ := List.getLast?_eq_some_iff.mp closes
      have inside : (Text.ofNat number ++ '}' :: (front ++ ['}'])).dropLast =
          Text.ofNat number ++ '}' :: front := by
        rw [← List.cons_append, ← List.append_assoc, List.dropLast_concat]
      rw [if_pos closes, inside]
      simp [digits]
    · rw [if_neg closes]
      simp [closes]

theorem single?_of_sameText {as bs : List Mark} (same : SameText as bs) (unmarked : Unmarked as)
    (several : single? (place as) = none) : single? (place bs) = none := by
  cases as with
  | nil => rwa [same.of_nil rfl]
  | cons a as =>
    obtain ⟨b, bs, rfl, here, later⟩ := same.of_cons rfl
    cases a with
    | char c =>
      have unmarked' := same.unmarked unmarked
      rw [eq_char_of_text here] at unmarked' ⊢
      exact single?_char unmarked'
    | literal number raw =>
      obtain ⟨number', rfl⟩ := eq_literal_of_text here
      obtain ⟨some, closed⟩ := single?_literal.mp several
      refine single?_literal.mpr ⟨?_, fun closes => ?_⟩
      · rwa [ne_eq, ← List.isEmpty_iff, ← later.isEmpty_eq, List.isEmpty_iff]
      · rw [← later.getLast?_eq] at closes
        exact mem_place_of_sameText later (by decide) (closed closes)

section Whole

variable {order : ByteOrder} {constants constants' : List (List Char)}

theorem ofText_of_single? {row : List Mark} (several : single? (place (trimmed row)) = none) :
    ofText order constants (place row) =
      if hasPlaceholder (place (trimmed row)) || startsHex (place (trimmed row)) then
        (mixed order constants (place (trimmed row))).map .bytes
      else .ok (.text (place (trimmed row))) := by
  rw [ofText, trim_place, ← single?, several]

theorem ofText_of_literal {row : List Mark} {number : Nat} {raw : List Char}
    (held : Held constants row) (single : trimmed row = [literal number raw]) :
    ofText order constants (place row) = .ok (.text (unescape raw)) := by
  obtain ⟨j, rfl, found⟩ := held.part (trimmed_inside row) number raw
    (single ▸ List.mem_cons_self ..)
  have alone : place [literal (j + 1) raw] = Query.placeholder (j + 1) := List.append_nil _
  have reads := ofText_placeholder found order
  rw [ofText, Text.trim_of_noBlank (noBlank_placeholder _)] at reads
  rw [ofText, trim_place, single, alone, reads]

theorem of_ofText {row : List Mark} (unmarked : Unmarked row) {v : Scalar}
    (h : ofText order constants (place row) = .ok v) :
    (∃ number raw, trimmed row = [literal number raw]) ∨ single? (place (trimmed row)) = none := by
  by_cases alone : ∃ number raw, trimmed row = [literal number raw]
  · exact .inl alone
  · refine .inr ?_
    rw [ofText, trim_place] at h
    split at h
    · rename_i inside filtered
      have found := (Option.filter_eq_some_iff.mp filtered).1
      rw [constant?_of_several (unmarked.part (trimmed_inside row))
        (fun number raw same => alone ⟨number, raw, same⟩) found] at h
      cases h
    · rename_i filtered
      exact filtered

theorem ofText_place {as bs : List Mark} (all : Renumbered constants constants' as bs) {v : Scalar}
    (h : ofText order constants (place as) = .ok v) :
    ofText order constants' (place bs) = .ok v := by
  have texts := all.same.trimmed
  have part := all.part texts (trimmed_inside as) (trimmed_inside bs)
  rcases of_ofText all.unmarked h with ⟨number, raw, single⟩ | several
  · obtain ⟨number', rest, single', later⟩ := texts.of_literal single
    rw [later.of_nil rfl] at single'
    rw [ofText_of_literal all.held single] at h
    rw [ofText_of_literal all.held' single', h]
  · rw [ofText_of_single? several] at h
    rw [ofText_of_single? (single?_of_sameText texts part.unmarked several)]
    split at h
    · rename_i isMixed
      obtain ⟨bytes, read, rfl⟩ := Outcome.map_ok.mp h
      have read' := mixedFrom_place _ (Nat.lt_succ_self _) part (Outcome.mapError_ok.mp read)
      have isMixed' : (hasPlaceholder (place (trimmed bs)) || startsHex (place (trimmed bs))) =
          true := by
        by_contra plain
        have bare := bare_of_noPlaceholder
          (Bool.or_eq_false_iff.mp (Bool.eq_false_iff.mpr plain)).1
        rw [texts.symm.eq_of_bare bare] at isMixed
        exact plain isMixed
      rw [if_pos isMixed', mixed, read']
      rfl
    · rename_i plain
      have bare := bare_of_noPlaceholder (Bool.or_eq_false_iff.mp (Bool.eq_false_iff.mpr plain)).1
      rw [texts.eq_of_bare bare, if_neg plain]
      exact h

end Whole

end Operand

end RecordCodec
