import Mathlib.Data.List.TakeWhile
import RecordCodec.Proofs.Search.Marks

/-!
Texts with placeholders under other numbers. Where two rows of marks are the same text, and each
literal is held by the constants of its own query, the compiler reads both rows alike: what it looks
for in a text passes over a placeholder or stops in front of it, whatever its number. Only a
placeholder that is written out in the query itself would be read by its number alone.
-/
namespace RecordCodec

namespace Mark

def sat (p : Char → Bool) : Mark → Bool
  | char c => p c
  | literal .. => p '#'

def Uniform (p : Char → Bool) : Prop :=
  p '#' = false ∨ ∀ number, ∀ c ∈ Query.placeholder number, p c = true

theorem mem_placeholder {number : Nat} {c : Char} (h : c ∈ Query.placeholder number) :
    c = '#' ∨ c = '{' ∨ c = '}' ∨ Text.isDigit c = true := by
  simp only [Query.placeholder, List.mem_cons, List.mem_append, List.not_mem_nil, or_false] at h
  rcases h with (h | h | h) | h
  · exact .inl h
  · exact .inr (.inl h)
  · exact .inr (.inr (.inr (Text.isDigit_of_mem_ofNat h)))
  · exact .inr (.inr (.inl h))

theorem uniform_ne {d : Char} (other : d ≠ '#' ∧ d ≠ '{' ∧ d ≠ '}' ∧ Text.isDigit d = false) :
    Uniform (· != d) := by
  refine .inr fun number c h => bne_iff_ne.mpr ?_
  rintro rfl
  rcases mem_placeholder h with same | same | same | digit
  · exact other.1 same
  · exact other.2.1 same
  · exact other.2.2.1 same
  · rw [other.2.2.2] at digit
    cases digit

theorem uniform_noOperator : Uniform fun c => !Comparator.isOperatorChar c := by
  refine .inr fun number c h => ?_
  rcases mem_placeholder h with rfl | rfl | rfl | digit
  · decide
  · decide
  · decide
  · rw [Bool.not_eq_true', Bool.eq_false_iff]
    intro operator
    have number := Comparator.toNat_of_isOperatorChar operator
    simp only [Text.isDigit, Bool.and_eq_true, decide_eq_true_eq] at digit
    omega

/-- Dropping characters of texts that hold a property throughout or not at their start. -/
theorem dropWhile_flatMap {p : Char → Bool} {f : Mark → List Char} {q : Mark → Bool}
    (each : ∀ m, (q m = true ∧ ∀ c ∈ f m, p c = true) ∨
      (q m = false ∧ ∃ c rest, f m = c :: rest ∧ p c = false)) (row : List Mark) :
    (row.flatMap f).dropWhile p = (row.dropWhile q).flatMap f ∧
      (row.flatMap f).takeWhile p = (row.takeWhile q).flatMap f := by
  induction row with
  | nil => exact ⟨rfl, rfl⟩
  | cons m row ih =>
    rw [List.flatMap_cons]
    rcases each m with ⟨yes, all⟩ | ⟨no, c, rest, text, stops⟩
    · rw [List.dropWhile_append_of_pos all, List.takeWhile_append_of_pos all,
        List.dropWhile_cons_of_pos yes, List.takeWhile_cons_of_pos yes, List.flatMap_cons, ih.1,
        ih.2]
      exact ⟨rfl, rfl⟩
    · have no' : ¬q m = true := by simp [no]
      have stops' : ¬p c = true := by simp [stops]
      rw [text, List.dropWhile_cons_of_neg no', List.takeWhile_cons_of_neg no', List.cons_append,
        List.dropWhile_cons_of_neg stops', List.takeWhile_cons_of_neg stops', List.flatMap_cons,
        text]
      exact ⟨rfl, rfl⟩

theorem each_placed {p : Char → Bool} (uniform : Uniform p) (m : Mark) :
    (sat p m = true ∧ ∀ c ∈ m.placed, p c = true) ∨
      (sat p m = false ∧ ∃ c rest, m.placed = c :: rest ∧ p c = false) := by
  cases m with
  | char c =>
    cases holds : p c with
    | true => exact .inl ⟨holds, by simpa [placed] using holds⟩
    | false => exact .inr ⟨holds, c, [], rfl, holds⟩
  | literal number raw =>
    rcases uniform with stops | passes
    · exact .inr ⟨stops, _, _, rfl, stops⟩
    · exact .inl ⟨passes number '#' (List.mem_cons_self ..), passes number⟩

theorem dropWhile_place {p : Char → Bool} (uniform : Uniform p) (row : List Mark) :
    (place row).dropWhile p = place (row.dropWhile (sat p)) :=
  (dropWhile_flatMap (each_placed uniform) row).1

theorem takeWhile_place {p : Char → Bool} (uniform : Uniform p) (row : List Mark) :
    (place row).takeWhile p = place (row.takeWhile (sat p)) :=
  (dropWhile_flatMap (each_placed uniform) row).2

theorem of_place_cons {row : List Mark} {c : Char} {rest : List Char} (other : c ≠ '#')
    (h : place row = c :: rest) : ∃ row', row = char c :: row' ∧ rest = place row' := by
  cases row with
  | nil => cases h
  | cons m row' =>
    cases m with
    | char d =>
      obtain ⟨rfl, rfl⟩ := List.cons.inj h
      exact ⟨row', rfl, rfl⟩
    | literal => exact absurd (List.cons.inj h).1.symm other

theorem of_head? {row : List Mark} {c : Char} (other : c ≠ '#')
    (h : (place row).head? = some c) : ∃ row', row = char c :: row' := by
  obtain ⟨rest, text⟩ := List.head?_eq_some_iff.mp h
  obtain ⟨row', rfl, -⟩ := of_place_cons other text
  exact ⟨row', rfl⟩

theorem place_literal (number : Nat) (raw : List Char) (row : List Mark) :
    place (literal number raw :: row) = '#' :: '{' :: (Text.ofNat number ++ '}' :: place row) := by
  simp [place_cons, placed, Query.placeholder]

theorem getLast?_place (front : List Mark) (last : Mark) :
    (place (front ++ [last])).getLast? = last.placed.getLast? := by
  rw [place_append, List.getLast?_append_of_ne_nil _ (by simp [place_cons, placed_ne_nil])]
  simp [place]

theorem getLast?_placeholder (number : Nat) : (Query.placeholder number).getLast? = some '}' :=
  List.getLast?_concat

theorem tail_dropWhile_place {d : Char} (uniform : Uniform (· != d)) (other : d ≠ '#')
    (row : List Mark) :
    ((place row).dropWhile (· != d)).tail = place (row.dropWhile (sat (· != d))).tail := by
  rw [dropWhile_place uniform]
  cases found : row.dropWhile (sat (· != d)) with
  | nil => rfl
  | cons m rest =>
    have stops : sat (· != d) m = false := by
      have head := List.head?_dropWhile_not (sat (· != d)) row
      rw [found] at head
      exact head
    cases m with
    | char c => rfl
    | literal => exact absurd (bne_eq_false_iff_eq.mp stops).symm other

def trimmed (row : List Mark) : List Mark :=
  ((row.dropWhile (sat Text.isBlank)).reverse.dropWhile (sat Text.isBlank)).reverse

theorem trim_place (row : List Mark) : Text.trim (place row) = place (trimmed row) := by
  have back : ∀ marks : List Mark,
      (place marks).reverse = marks.reverse.flatMap fun m => m.placed.reverse := by
    intro marks
    rw [place, List.reverse_flatMap]
    rfl
  have each : ∀ m : Mark, (sat Text.isBlank m = true ∧ ∀ c ∈ m.placed.reverse, Text.isBlank c) ∨
      (sat Text.isBlank m = false ∧
        ∃ c rest, m.placed.reverse = c :: rest ∧ Text.isBlank c = false) := by
    intro m
    cases m with
    | char c =>
      cases holds : Text.isBlank c with
      | true => exact .inl ⟨holds, by simpa [placed] using holds⟩
      | false => exact .inr ⟨holds, c, [], rfl, holds⟩
    | literal number raw =>
      exact .inr ⟨(by decide : Text.isBlank '#' = false), '}', _,
        by simp [placed, Query.placeholder]; rfl, by decide⟩
  rw [Text.trim, Text.trimStart, dropWhile_place (.inl (by decide)), Text.trimEnd, back,
    (dropWhile_flatMap each _).1, trimmed, place, List.reverse_flatMap]
  simp [Function.comp_def]

def SameText (as bs : List Mark) : Prop :=
  as.map text = bs.map text

theorem eq_char_of_text {c : Char} {m : Mark} (same : (char c).text = m.text) : m = char c := by
  cases m with
  | char d => simpa [text, eq_comm] using same
  | literal number raw => simp [text] at same

theorem eq_literal_of_text {number : Nat} {raw : List Char} {m : Mark}
    (same : (literal number raw).text = m.text) : ∃ number', m = literal number' raw := by
  cases m with
  | char d => simp [text] at same
  | literal number' raw' =>
    have raws : raw = raw' := by simpa [text] using same
    exact ⟨number', by rw [raws]⟩

theorem sat_eq_of_text {m m' : Mark} (same : m.text = m'.text) (p : Char → Bool) :
    sat p m = sat p m' := by
  cases m with
  | char c => rw [eq_char_of_text same]
  | literal number raw =>
    obtain ⟨number', rfl⟩ := eq_literal_of_text same
    rfl

namespace SameText

variable {as bs : List Mark} (same : SameText as bs)
include same

theorem of_cons {a : Mark} {as' : List Mark} (head : as = a :: as') :
    ∃ b bs', bs = b :: bs' ∧ a.text = b.text ∧ SameText as' bs' := by
  subst head
  obtain ⟨b, bs', rfl, here, later⟩ := List.map_eq_cons_iff.mp same.symm
  exact ⟨b, bs', rfl, here.symm, later.symm⟩

theorem of_char {c : Char} {as' : List Mark} (head : as = char c :: as') :
    ∃ bs', bs = char c :: bs' ∧ SameText as' bs' := by
  obtain ⟨b, bs', rfl, here, later⟩ := same.of_cons head
  rw [eq_char_of_text here]
  exact ⟨bs', rfl, later⟩

theorem of_literal {number : Nat} {raw : List Char} {as' : List Mark}
    (head : as = literal number raw :: as') :
    ∃ number' bs', bs = literal number' raw :: bs' ∧ SameText as' bs' := by
  obtain ⟨b, bs', rfl, here, later⟩ := same.of_cons head
  obtain ⟨number', rfl⟩ := eq_literal_of_text here
  exact ⟨number', bs', rfl, later⟩

theorem symm : SameText bs as :=
  Eq.symm same

theorem of_nil (none : as = []) : bs = [] := by
  subst none
  exact List.map_eq_nil_iff.mp same.symm

theorem reverse : SameText as.reverse bs.reverse := by
  rw [SameText, List.map_reverse, List.map_reverse, same]

theorem dropWhile (p : Char → Bool) : SameText (as.dropWhile (sat p)) (bs.dropWhile (sat p)) := by
  induction as generalizing bs with
  | nil =>
    rw [same.of_nil rfl]
    rfl
  | cons a as ih =>
    obtain ⟨b, bs', rfl, here, later⟩ := same.of_cons rfl
    rw [List.dropWhile_cons, List.dropWhile_cons, sat_eq_of_text here]
    split
    · exact ih later
    · exact same

theorem takeWhile (p : Char → Bool) : SameText (as.takeWhile (sat p)) (bs.takeWhile (sat p)) := by
  induction as generalizing bs with
  | nil =>
    rw [same.of_nil rfl]
    rfl
  | cons a as ih =>
    obtain ⟨b, bs', rfl, here, later⟩ := same.of_cons rfl
    rw [List.takeWhile_cons, List.takeWhile_cons, sat_eq_of_text here]
    split
    · rw [SameText, List.map_cons, List.map_cons, here, ih later]
    · rfl

theorem tail : SameText as.tail bs.tail := by
  rw [SameText, List.map_tail, List.map_tail, same]

theorem dropLast : SameText as.dropLast bs.dropLast := by
  rw [SameText, List.map_dropLast, List.map_dropLast, same]

theorem trimmed : SameText (trimmed as) (trimmed bs) :=
  ((same.dropWhile _).reverse.dropWhile _).reverse

theorem of_append {front back : List Mark} (split : as = front ++ back) :
    ∃ front' back', bs = front' ++ back' ∧ SameText front front' ∧ SameText back back' := by
  subst split
  have parts := same.symm
  rw [SameText, List.map_append, List.map_eq_append_iff] at parts
  obtain ⟨front', back', rfl, first, last⟩ := parts
  exact ⟨front', back', rfl, first.symm, last.symm⟩

theorem head?_eq : (place as).head? = (place bs).head? := by
  cases as with
  | nil => rw [same.of_nil rfl]
  | cons a as =>
    obtain ⟨b, bs, rfl, here, -⟩ := same.of_cons rfl
    cases a with
    | char c => rw [eq_char_of_text here]; rfl
    | literal number raw =>
      obtain ⟨number', rfl⟩ := eq_literal_of_text here
      rfl

theorem isEmpty_eq : as.isEmpty = bs.isEmpty := by
  rw [← List.isEmpty_map (f := text), same, List.isEmpty_map]

theorem getLast?_eq : (place as).getLast? = (place bs).getLast? := by
  rcases List.eq_nil_or_concat' as with none | ⟨front, last, split⟩
  · rw [same.of_nil none, none]
  · obtain ⟨front', back, rfl, -, ends⟩ := same.of_append split
    obtain ⟨last', back', rfl, here, rest⟩ := ends.of_cons rfl
    rw [split, rest.of_nil rfl, getLast?_place, getLast?_place]
    cases last with
    | char c => rw [eq_char_of_text here]
    | literal number raw =>
      obtain ⟨number', rfl⟩ := eq_literal_of_text here
      rw [placed, placed, getLast?_placeholder, getLast?_placeholder]

theorem eq_of_bare (bare : ∀ m ∈ as, m.isLiteral = false) : bs = as := by
  induction as generalizing bs with
  | nil => exact same.of_nil rfl
  | cons a as ih =>
    obtain ⟨here, rest⟩ := List.forall_mem_cons.mp bare
    cases a with
    | literal => cases here
    | char c =>
      obtain ⟨bs', rfl, later⟩ := same.of_char rfl
      rw [ih later rest]

end SameText

theorem bare_takeWhile {p : Char → Bool} (stops : p '#' = false) (row : List Mark) :
    ∀ m ∈ row.takeWhile (sat p), m.isLiteral = false := by
  intro m listed
  have passed := List.mem_takeWhile_imp listed
  cases m with
  | char => rfl
  | literal =>
    rw [sat, stops] at passed
    cases passed

/-- Nowhere in a row is the start of a placeholder written out. -/
def Unmarked (row : List Mark) : Prop :=
  ¬[char '#', char '{'] <:+: row

instance (row : List Mark) : Decidable (Unmarked row) :=
  inferInstanceAs (Decidable (¬[char '#', char '{'] <:+: row))

theorem SameText.unmarked {as bs : List Mark} (same : SameText as bs) (unmarked : Unmarked as) :
    Unmarked bs := by
  rintro ⟨front, back, split⟩
  rw [List.append_assoc] at split
  obtain ⟨front', back', rfl, -, last⟩ := same.symm.of_append split.symm
  obtain ⟨behind, rfl, next⟩ := last.of_char rfl
  obtain ⟨rest, rfl, -⟩ := next.of_char rfl
  exact unmarked ⟨front', rest, by simp⟩

theorem Held.part {constants : List (List Char)} {as bs : List Mark} (held : Held constants bs)
    (part : as <:+: bs) : Held constants as :=
  fun number raw inside => held number raw (part.subset inside)

theorem Unmarked.part {as bs : List Mark} (unmarked : Unmarked bs) (part : as <:+: bs) :
    Unmarked as :=
  fun marker => unmarked (marker.trans part)

theorem trimmed_inside (row : List Mark) : trimmed row <:+: row := by
  have back : trimmed row <+: row.dropWhile (sat Text.isBlank) := by
    rw [← List.reverse_suffix, trimmed, List.reverse_reverse]
    exact List.dropWhile_suffix _
  exact back.isInfix.trans (List.dropWhile_suffix _).isInfix

/-- Rows of two queries that are one text: literals are held by the constants of either query, and
no placeholder is written out. -/
structure Renumbered (constants constants' : List (List Char)) (as bs : List Mark) : Prop where
  same : SameText as bs
  held : Held constants as
  held' : Held constants' bs
  unmarked : Unmarked as

theorem Renumbered.part {constants constants' : List (List Char)} {as bs as' bs' : List Mark}
    (all : Renumbered constants constants' as bs) (same : SameText as' bs') (part : as' <:+: as)
    (part' : bs' <:+: bs) : Renumbered constants constants' as' bs' :=
  ⟨same, all.held.part part, all.held'.part part', all.unmarked.part part⟩

end Mark

end RecordCodec
