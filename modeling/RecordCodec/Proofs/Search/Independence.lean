import RecordCodec.Libraries.Standard
import RecordCodec.Proofs.Search.AlikeOperands

/-!
What a predicate compares with depends on its own text only. In whatever queries a predicate stands,
and however many literals stand before it, it becomes the same comparisons, unless it writes out a
placeholder, which then takes the literal of another predicate.
-/
namespace RecordCodec

namespace Mark

def nameOf (row : List Mark) : List Mark :=
  trimmed (row.takeWhile (sat fun c => !Comparator.isOperatorChar c))

def behindName (row : List Mark) : List Mark :=
  row.dropWhile (sat fun c => !Comparator.isOperatorChar c)

def operandOf (row : List Mark) : List Mark :=
  trimmed ((behindName row).dropWhile (sat Comparator.isOperatorChar))

theorem operandOf_inside (row : List Mark) : operandOf row <:+: row :=
  (trimmed_inside _).trans ((List.dropWhile_suffix _).trans (List.dropWhile_suffix _)).isInfix

theorem SameText.operandOf {as bs : List Mark} (same : SameText as bs) :
    SameText (operandOf as) (operandOf bs) :=
  ((same.dropWhile _).dropWhile _).trimmed

theorem contains_eq (s : List Char) (c : Char) :
    s.contains c = !(s.dropWhile (· != c)).isEmpty := by
  induction s with
  | nil => rfl
  | cons d s ih =>
    by_cases same : d = c
    · simp [same]
    · rw [List.contains_cons, beq_eq_false_iff_ne.mpr (Ne.symm same), Bool.false_or, ih,
        List.dropWhile_cons_of_pos (p := (· != c)) (bne_iff_ne.mpr same)]

namespace SameText

variable {as bs : List Mark} (same : SameText as bs)
include same

theorem isRange_eq : Query.isRange (place as) = Query.isRange (place bs) := by
  have uniform : Uniform (· != ':') := uniform_ne (by decide)
  rw [Query.isRange, Query.isRange, same.head?_eq, same.getLast?_eq, contains_eq,
    contains_eq, dropWhile_place uniform, dropWhile_place uniform, place_isEmpty, place_isEmpty,
    (same.dropWhile _).isEmpty_eq]

end SameText

/-- A range has a character at each of its ends, so that what is between them is marks again. -/
theorem tail_dropLast_place {row : List Mark} (range : Query.isRange (place row) = true) :
    (place row).tail.dropLast = place row.tail.dropLast := by
  simp only [Query.isRange, Bool.and_eq_true, Bool.or_eq_true, beq_iff_eq] at range
  obtain ⟨⟨opening, closing⟩, -⟩ := range
  have first : ∃ c rest, row = char c :: rest := by
    rcases opening with closed | opened
    · exact ⟨_, of_head? (by decide) closed⟩
    · exact ⟨_, of_head? (by decide) opened⟩
  obtain ⟨c, rest, rfl⟩ := first
  rcases List.eq_nil_or_concat' rest with rfl | ⟨inner, last, rfl⟩
  · rfl
  · rw [← List.cons_append, getLast?_place] at closing
    cases last with
    | literal number raw =>
      rw [placed, getLast?_placeholder] at closing
      rcases closing with closed | opened
      · cases closed
      · cases opened
    | char d =>
      rw [place_cons, placed, List.singleton_append, List.tail_cons, List.tail_cons,
        List.dropLast_concat, place_append]
      exact List.dropLast_concat

end Mark

namespace Query

open Mark

theorem of_predicateParts {row : List Mark} {name operand : List Char} {comparator : Comparator}
    (h : predicateParts (place row) = .ok (name, comparator, operand)) :
    name = place (nameOf row) ∧ operand = place (operandOf row) ∧
      Comparator.ofText? (place ((behindName row).takeWhile (sat Comparator.isOperatorChar))) =
        some comparator := by
  have stops : Comparator.isOperatorChar '#' = false := by decide
  unfold predicateParts at h
  dsimp only at h
  rw [takeWhile_place uniform_noOperator, dropWhile_place uniform_noOperator,
    takeWhile_place (.inl stops), dropWhile_place (.inl stops), trim_place, trim_place] at h
  obtain ⟨-, h⟩ := Outcome.unless_ok.mp h
  split at h
  · rename_i found
    cases h
    exact ⟨rfl, rfl, found⟩
  · cases h

end Query

namespace SearchTarget

open Mark

def withConstants (t : SearchTarget) (constants : List (List Char)) : SearchTarget :=
  { t with constants }

@[simp]
theorem withConstants_platform (t : SearchTarget) (constants : List (List Char)) :
    (t.withConstants constants).platform = t.platform := rfl

section Alike

variable {t : SearchTarget} {constants : List (List Char)} {as bs : List Mark}
  {node node' : SearchNode} {name : List Char}

theorem leaf_place [Libraries] (all : Renumbered t.constants constants as bs)
    {comparator : Comparator}
    (h : t.leaf name comparator (place as) = .ok node)
    (h' : (t.withConstants constants).leaf name comparator (place bs) = .ok node') :
    node = node' := by
  obtain ⟨type, found, h⟩ := Outcome.bind_ok.mp h
  obtain ⟨type', found', h'⟩ := Outcome.bind_ok.mp h'
  cases found.symm.trans found'
  obtain ⟨scalar, read, h⟩ := Outcome.bind_ok.mp h
  obtain ⟨scalar', read', h'⟩ := Outcome.bind_ok.mp h'
  cases (Operand.ofText_place all read).symm.trans read'
  obtain ⟨value, assigned, h⟩ := Outcome.bind_ok.mp h
  obtain ⟨value', assigned', h'⟩ := Outcome.bind_ok.mp h'
  cases assigned.symm.trans assigned'
  exact Except.ok.inj (h.symm.trans h')

section Ranges

variable {low low' high high' : List Mark} {openLow openHigh : Bool}
  (lows : Renumbered t.constants constants low low')
  (highs : Renumbered t.constants constants high high')
include lows highs

theorem openRange_place [Libraries]
    (h : t.openRange name (place low) (place high) openLow openHigh = .ok node)
    (h' : (t.withConstants constants).openRange name (place low') (place high') openLow openHigh =
      .ok node') : node = node' := by
  obtain ⟨lower, hlower, h⟩ := Outcome.bind_ok.mp h
  obtain ⟨upper, hupper, h⟩ := Outcome.bind_ok.mp h
  obtain ⟨lower', hlower', h'⟩ := Outcome.bind_ok.mp h'
  obtain ⟨upper', hupper', h'⟩ := Outcome.bind_ok.mp h'
  rw [leaf_place lows hlower hlower', leaf_place highs hupper hupper'] at h
  exact Except.ok.inj (h.symm.trans h')

theorem mainframeRange_place [Libraries]
    (h : t.mainframeRange name (place low) (place high) openLow openHigh = .ok node)
    (h' : (t.withConstants constants).mainframeRange name (place low') (place high') openLow
      openHigh = .ok node') : node = node' := by
  obtain ⟨lower, hlower, h⟩ := Outcome.bind_ok.mp h
  obtain ⟨upper, hupper, h⟩ := Outcome.bind_ok.mp h
  obtain ⟨lower', hlower', h'⟩ := Outcome.bind_ok.mp h'
  obtain ⟨upper', hupper', h'⟩ := Outcome.bind_ok.mp h'
  rw [leaf_place lows hlower hlower', leaf_place highs hupper hupper'] at h
  cases openLow <;> cases openHigh
  case false.false => exact Except.ok.inj (h.symm.trans h')
  case false.true =>
    obtain ⟨last, hlast, h⟩ := Outcome.bind_ok.mp h
    obtain ⟨last', hlast', h'⟩ := Outcome.bind_ok.mp h'
    rw [leaf_place highs hlast hlast'] at h
    exact Except.ok.inj (h.symm.trans h')
  case true.false =>
    obtain ⟨first, hfirst, h⟩ := Outcome.bind_ok.mp h
    obtain ⟨first', hfirst', h'⟩ := Outcome.bind_ok.mp h'
    rw [leaf_place lows hfirst hfirst'] at h
    exact Except.ok.inj (h.symm.trans h')
  case true.true =>
    obtain ⟨first, hfirst, h⟩ := Outcome.bind_ok.mp h
    obtain ⟨last, hlast, h⟩ := Outcome.bind_ok.mp h
    obtain ⟨first', hfirst', h'⟩ := Outcome.bind_ok.mp h'
    obtain ⟨last', hlast', h'⟩ := Outcome.bind_ok.mp h'
    rw [leaf_place lows hfirst hfirst', leaf_place highs hlast hlast'] at h
    exact Except.ok.inj (h.symm.trans h')

end Ranges

theorem range_place [Libraries] (all : Renumbered t.constants constants as bs)
    (range : Query.isRange (place as) = true) (h : t.range name (place as) = .ok node)
    (h' : (t.withConstants constants).range name (place bs) = .ok node') : node = node' := by
  have uniform : Uniform (· != ':') := uniform_ne (by decide)
  have range' : Query.isRange (place bs) = true := all.same.isRange_eq ▸ range
  have inner : ∀ row : List Mark, row.tail.dropLast <:+: row := fun row =>
    (List.dropLast_prefix _).isInfix.trans (List.tail_suffix _).isInfix
  have bounds := all.part all.same.tail.dropLast (inner as) (inner bs)
  have lows := bounds.part (bounds.same.takeWhile (· != ':')) (List.takeWhile_prefix _).isInfix
    (List.takeWhile_prefix _).isInfix
  have behind : ∀ row : List Mark, (row.dropWhile (sat (· != ':'))).tail <:+: row := fun row =>
    ((List.tail_suffix _).trans (List.dropWhile_suffix _)).isInfix
  have highs := bounds.part (bounds.same.dropWhile (· != ':')).tail (behind _) (behind _)
  unfold SearchTarget.range at h h'
  dsimp only at h h'
  rw [tail_dropLast_place range, takeWhile_place uniform,
    tail_dropWhile_place uniform (by decide)] at h
  rw [tail_dropLast_place range', takeWhile_place uniform, tail_dropWhile_place uniform (by decide),
    ← all.same.head?_eq, ← all.same.getLast?_eq, withConstants_platform] at h'
  split at h
  · rename_i mainframe
    rw [if_pos mainframe] at h'
    exact mainframeRange_place lows highs h h'
  · rename_i opened
    rw [if_neg opened] at h'
    exact openRange_place lows highs h h'

/-- Predicates that are one text become the same, where they name the same field and no placeholder
is written out in their operand. -/
theorem predicate_place [Libraries] (same : SameText as bs) (held : Held t.constants as)
    (held' : Held constants bs) (named : nameOf as = nameOf bs) (unmarked : Unmarked (operandOf as))
    (h : t.predicate (place as) = .ok node)
    (h' : (t.withConstants constants).predicate (place bs) = .ok node') : node = node' := by
  have all : Renumbered t.constants constants (operandOf as) (operandOf bs) :=
    ⟨same.operandOf, held.part (operandOf_inside as), held'.part (operandOf_inside bs), unmarked⟩
  obtain ⟨⟨name, comparator, operand⟩, parts, h⟩ := Outcome.bind_ok.mp h
  obtain ⟨⟨name', comparator', operand'⟩, parts', h'⟩ := Outcome.bind_ok.mp h'
  obtain ⟨rfl, rfl, sign⟩ := Query.of_predicateParts parts
  obtain ⟨rfl, rfl, sign'⟩ := Query.of_predicateParts parts'
  -- No literal is part of a comparator, so both rows have the same one.
  have signs := ((same.dropWhile _).takeWhile _).eq_of_bare
    (bare_takeWhile (by decide : Comparator.isOperatorChar '#' = false) (behindName as))
  rw [behindName, signs, ← behindName, sign] at sign'
  cases sign'
  dsimp only at h h'
  rw [← named, ← all.same.isRange_eq] at h'
  split at h
  · rename_i range
    rw [if_pos range] at h'
    obtain ⟨equal, h⟩ := Outcome.when_ok.mp h
    obtain ⟨-, h'⟩ := Outcome.when_ok.mp h'
    exact range_place all range h h'
  · rename_i single
    rw [if_neg single] at h'
    exact leaf_place all h h'

end Alike

end SearchTarget

namespace Query

open Mark

def comparisons [Libraries] (q : Query) (platform : Platform) (d : Definition) (order : ByteOrder) :
    Except FieldFault (List (List Predicate)) :=
  (predicateTexts q.search).mapM fun s =>
    (SearchTarget.predicate ⟨platform, d, order, q.constants⟩ s).map SearchNode.leaves

section Compiled

variable {platform : Platform} {d : Definition} {order : ByteOrder}

theorem compile_comparisons [Libraries] {s : List Char} {q : Query} {tree : SearchTree}
    (read : ofText s = .ok q) (compiled : q.compile platform d order = .ok tree) :
    ∃ groups, q.comparisons platform d order = .ok groups ∧ tree.root.leaves = groups.flatten := by
  obtain ⟨⟨search, constants⟩, -, rfl⟩ := Outcome.map_ok.mp read
  obtain ⟨root, rooted, rfl⟩ := Outcome.map_ok.mp compiled
  obtain ⟨nodes, each, gathers⟩ :=
    SearchTarget.conjunction_gathers (Text.trim_collapse search) rooted
  obtain ⟨groups, grouped, same⟩ := Outcome.mapM_forall₂
    (R := fun node group => node.leaves = group)
    (fun s node h => ⟨node.leaves, Outcome.map_ok.mpr ⟨node, h, rfl⟩, rfl⟩) each
  rw [← List.forall₂_map_left_iff (R := Eq), List.forall₂_eq_eq_eq] at same
  refine ⟨groups, grouped, ?_⟩
  rw [gathers.leaves, ← same, List.flatMap_def]

/-- Two queries with one predicate at the same place: where it names the same field in both and
writes out no placeholder in its operand, it becomes the same comparisons, whatever the literals and
the other predicates of the queries. One text names the same field unless a literal stands in its
name. -/
theorem predicates_independent [Libraries] {s₁ s₂ : List Char} {q₁ q₂ : Query}
    {tree₁ tree₂ : SearchTree}
    (read₁ : ofText s₁ = .ok q₁) (read₂ : ofText s₂ = .ok q₂)
    (compiled₁ : q₁.compile platform d order = .ok tree₁)
    (compiled₂ : q₂.compile platform d order = .ok tree₂) :
    ∃ groups₁ groups₂, q₁.comparisons platform d order = .ok groups₁ ∧
      q₂.comparisons platform d order = .ok groups₂ ∧
      tree₁.root.leaves = groups₁.flatten ∧ tree₂.root.leaves = groups₂.flatten ∧
      ∀ (i : Nat) (row₁ row₂ : List Mark),
        (predicateMarks s₁)[i]? = some row₁ → (predicateMarks s₂)[i]? = some row₂ →
        SameText row₁ row₂ → nameOf row₁ = nameOf row₂ → Unmarked (operandOf row₁) →
        ∃ group, group ≠ [] ∧ groups₁[i]? = some group ∧ groups₂[i]? = some group := by
  obtain ⟨groups₁, grouped₁, leaves₁⟩ := compile_comparisons read₁ compiled₁
  obtain ⟨groups₂, grouped₂, leaves₂⟩ := compile_comparisons read₂ compiled₂
  refine ⟨groups₁, groups₂, grouped₁, grouped₂, leaves₁, leaves₂, ?_⟩
  intro i row₁ row₂ listed₁ listed₂ same named unmarked
  have held₁ := held_predicateMarks read₁ (List.mem_of_getElem? listed₁)
  have held₂ := held_predicateMarks read₂ (List.mem_of_getElem? listed₂)
  have text₁ : (predicateTexts q₁.search)[i]? = some (place row₁) := by
    rw [predicateTexts_marks read₁, List.getElem?_map, listed₁]
    rfl
  have text₂ : (predicateTexts q₂.search)[i]? = some (place row₂) := by
    rw [predicateTexts_marks read₂, List.getElem?_map, listed₂]
    rfl
  obtain ⟨group₁, at₁, here₁⟩ := Outcome.getElem?_of_mapM grouped₁ text₁
  obtain ⟨group₂, at₂, here₂⟩ := Outcome.getElem?_of_mapM grouped₂ text₂
  obtain ⟨node₁, become₁, rfl⟩ := Outcome.map_ok.mp here₁
  obtain ⟨node₂, become₂, rfl⟩ := Outcome.map_ok.mp here₂
  have one := SearchTarget.predicate_place same held₁ held₂ named unmarked become₁ become₂
  obtain ⟨clause, -, compiled⟩ := SearchTarget.predicate_compiled become₁
  exact ⟨node₁.leaves, compiled.some, at₁, one ▸ at₂⟩

end Compiled

def letterField (name : String) : FieldType :=
  { FieldType.ofKind (.text .short false) name with length := 0 }

def lettersDefinition : Definition where
  platform := .openSystem
  types := [letterField "AA", letterField "BB"]
  index := [("BB", letterField "BB"), ("AA", letterField "AA")]
  values := [(letterField "AA").fresh .openSystem, (letterField "BB").fresh .openSystem]

def letterIs (name : String) (byte : UInt8) : Predicate :=
  ⟨name, .equal, .leaf ⟨.top (letterField name) .openSystem, .text .short false ⟨[byte], 1⟩⟩⟩

def lettersTree (first second : UInt8) : SearchTree where
  root := .branch .conjunction [.leaf (letterIs "AA" first), .leaf (letterIs "BB" second)]
  mainframe := false
  byteOrder := .big

def letterQuery : Query :=
  ⟨"AA=#\x7b1\x7d AND BB=#\x7b2\x7d".toList, [['X'], ['Y']]⟩

def rangeQuery : Query :=
  ⟨"AA=[#\x7b1\x7d:#\x7b2\x7d) AND BB=#\x7b3\x7d".toList, [['P'], ['Q'], ['Y']]⟩

def rangeTree : SearchTree where
  root := .branch .conjunction [
    .branch .range [.leaf { letterIs "AA" 0x50 with comparator := .greaterOrEqual },
      .leaf { letterIs "AA" 0x51 with comparator := .less }],
    .leaf (letterIs "BB" 0x59)]
  mainframe := false
  byteOrder := .big

theorem second_literal_kept :
    Definition.ofTypes .openSystem [letterField "AA", letterField "BB"] = .ok lettersDefinition ∧
      ofText "AA='X' AND BB='Y'".toList = .ok letterQuery ∧
      ofText "AA=['P':'Q') AND BB='Y'".toList = .ok rangeQuery ∧
      letterQuery.compile .openSystem lettersDefinition .big = .ok (lettersTree 0x58 0x59) ∧
      rangeQuery.compile .openSystem lettersDefinition .big = .ok rangeTree ∧
      ∃ groups₁ groups₂ group, group ≠ [] ∧
        letterQuery.comparisons .openSystem lettersDefinition .big = .ok groups₁ ∧
        rangeQuery.comparisons .openSystem lettersDefinition .big = .ok groups₂ ∧
        (lettersTree 0x58 0x59).root.leaves = groups₁.flatten ∧
        rangeTree.root.leaves = groups₂.flatten ∧
        groups₁[1]? = some group ∧ groups₂[1]? = some group := by
  have read₁ : ofText "AA='X' AND BB='Y'".toList = .ok letterQuery := rfl
  have read₂ : ofText "AA=['P':'Q') AND BB='Y'".toList = .ok rangeQuery := rfl
  have compiled₁ : letterQuery.compile .openSystem lettersDefinition .big =
      .ok (lettersTree 0x58 0x59) := rfl
  have compiled₂ : rangeQuery.compile .openSystem lettersDefinition .big = .ok rangeTree := rfl
  obtain ⟨groups₁, groups₂, grouped₁, grouped₂, leaves₁, leaves₂, same⟩ :=
    predicates_independent read₁ read₂ compiled₁ compiled₂
  obtain ⟨group, some, at₁, at₂⟩ := same 1
    [.char 'B', .char 'B', .char '=', .literal 2 ['Y']]
    [.char 'B', .char 'B', .char '=', .literal 3 ['Y']] rfl rfl rfl rfl (by decide)
  exact ⟨rfl, read₁, read₂, compiled₁, compiled₂, groups₁, groups₂, group, some, grouped₁,
    grouped₂, leaves₁, leaves₂, at₁, at₂⟩

/-- A query whose first predicate writes out the placeholder of the second one's literal. -/
def markedText (c : Char) : List Char :=
  "AA=#\x7b1\x7d AND BB='".toList ++ [c, '\'']

def markedQuery (c : Char) : Query :=
  ⟨"AA=#\x7b1\x7d AND BB=#\x7b1\x7d".toList, [[c]]⟩

/-- A placeholder that is written out takes the literal of another predicate: the first predicate is
the same text in both queries, with operands `X` and `Y`. -/
theorem written_placeholder_takes_literal :
    ofText (markedText 'X') = .ok (markedQuery 'X') ∧
      ofText (markedText 'Y') = .ok (markedQuery 'Y') ∧
      (predicateMarks (markedText 'X'))[0]? = (predicateMarks (markedText 'Y'))[0]? ∧
      (predicateMarks (markedText 'X'))[0]? = some ("AA=#\x7b1\x7d".toList.map .char) ∧
      (markedQuery 'X').compile .openSystem lettersDefinition .big =
        .ok (lettersTree 0x58 0x58) ∧
      (markedQuery 'Y').compile .openSystem lettersDefinition .big =
        .ok (lettersTree 0x59 0x59) ∧
      (lettersTree 0x58 0x58).valueBuffer = .ok [2, 0x58, 2, 0x58] ∧
      (lettersTree 0x59 0x59).valueBuffer = .ok [2, 0x59, 2, 0x59] :=
  ⟨rfl, rfl, rfl, rfl, rfl, rfl, rfl, rfl⟩

end Query

end RecordCodec
