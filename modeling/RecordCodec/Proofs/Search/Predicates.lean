import RecordCodec.Proofs.Search.Operands

/-!
The compiler reads a written predicate as what it means, wherever the predicate stands in a query:
the numbering of literals is carried along as a count of those in front.
-/
namespace RecordCodec.Written

open Query (Piece)
open Query.Piece (placed literals)

def Holds (constants : List (List Char)) (n : Nat) (pieces : List Piece) : Prop :=
  literals pieces <+: constants.drop n

theorem Holds.left {constants : List (List Char)} {n : Nat} {as bs : List Piece}
    (h : Holds constants n (as ++ bs)) : Holds constants n as := by
  rw [Holds, Piece.literals_append] at h
  exact (List.prefix_append _ _).trans h

theorem Holds.right {constants : List (List Char)} {n : Nat} {as bs : List Piece}
    (h : Holds constants n (as ++ bs)) : Holds constants (n + (literals as).length) bs := by
  rw [Holds, Piece.literals_append] at h
  obtain ⟨rest, h⟩ := h
  refine ⟨rest, ?_⟩
  rw [← List.drop_drop, ← h, List.append_assoc, List.drop_left]

namespace Term

theorem noBlank_placed (n : Nat) (term : Term) : Text.NoBlank (placed n term.pieces) := by
  cases term with
  | literal l => simpa [pieces, placed] using Operand.noBlank_placeholder (n + 1)
  | bare b => simpa [pieces, placed] using b.noBlank

theorem placed_start (n : Nat) (term : Term) : ∃ c s, placed n term.pieces = c :: s ∧
    Comparator.isOperatorChar c = false ∧ c ≠ '[' ∧ c ≠ '(' := by
  cases term with
  | literal l =>
    exact ⟨'#', '{' :: (Text.ofNat (n + 1) ++ ['}']), by simp [pieces, placed, Query.placeholder],
      by decide, by decide, by decide⟩
  | bare b =>
    cases chars : b.chars with
    | nil => exact absurd chars b.given
    | cons c s => exact ⟨c, s, by simp [pieces, placed, chars], b.start c (by simp [chars])⟩

theorem ofText_placed {constants : List (List Char)} {n : Nat} (term : Term)
    (holds : Holds constants n term.pieces) (order : ByteOrder) :
    Operand.ofText order constants (placed n term.pieces) = term.scalar order := by
  cases term with
  | literal l =>
    have found : constants[n]? = some l.raw := by
      obtain ⟨rest, h⟩ := holds
      have first : (constants.drop n)[0]? = some l.raw := by
        rw [← h]
        rfl
      simpa using first
    simpa [pieces, placed, scalar] using Operand.ofText_placeholder found order
  | bare b =>
    have text : placed n (bare b).pieces = b.chars := by simp [pieces, placed]
    rw [text, Operand.ofText, Text.trim_of_noBlank b.noBlank]
    simp only [Operand.placeholder?_of_noHash b.noHash, Operand.hasPlaceholder_of_noHash b.noHash,
      Operand.mixed_noHash order constants b.noHash, Option.filter_none, Bool.false_or, scalar]

end Term

theorem Bound.noColon_placed (n : Nat) (b : Bound) : ':' ∉ placed n b.term.pieces := by
  cases term : b.term with
  | literal l =>
    intro colon
    have digit : ':' ∈ Text.ofNat (n + 1) := by
      simpa [Term.pieces, placed, Query.placeholder] using colon
    exact absurd (Text.isDigit_of_mem_ofNat digit) (by decide)
  | bare bare => simpa [Term.pieces, placed] using b.noColon bare term

namespace Comparison

theorem noBlank_placed (n : Nat) (c : Comparison) : Text.NoBlank (placed n c.operand) := by
  cases c with
  | single sign term => exact term.noBlank_placed n
  | range doubled openLow openHigh low high =>
    have open' : Text.NoBlank [if openLow then '(' else '['] := by
      cases openLow <;> exact Text.noBlank_nil.cons (by decide)
    have close : Text.NoBlank [if openHigh then ')' else ']'] := by
      cases openHigh <;> exact Text.noBlank_nil.cons (by decide)
    have colon : Text.NoBlank [':'] := Text.noBlank_nil.cons (by decide)
    simp only [operand, placed, Piece.placed_append, List.append_nil]
    exact open'.append ((low.term.noBlank_placed _).append
      (colon.append ((high.term.noBlank_placed _).append close)))

theorem placed_start (n : Nat) (c : Comparison) : ∃ o s, placed n c.operand = o :: s ∧
    Comparator.isOperatorChar o = false := by
  cases c with
  | single sign term =>
    obtain ⟨o, s, text, plain, -⟩ := term.placed_start n
    exact ⟨o, s, text, plain⟩
  | range doubled openLow openHigh low high =>
    refine ⟨_, _, rfl, ?_⟩
    cases openLow <;> decide

end Comparison

theorem leaf_placed [Libraries] {t : SearchTarget} {n : Nat} (name : List Char)
    (comparator : Comparator)
    (term : Term) (holds : Holds t.constants n term.pieces) :
    t.leaf name comparator (placed n term.pieces) =
      ((t.definition.field (String.ofList name)).bind fun type =>
        (term.value t (type.element?.getD type)).map fun value =>
          .leaf ⟨String.ofList name, comparator, value⟩) := by
  rw [SearchTarget.leaf, term.ofText_placed holds]
  cases t.definition.field (String.ofList name) with
  | error fault => rfl
  | ok type =>
    cases scalar : term.scalar t.byteOrder with
    | error fault => simp [Term.value, scalar, bind, Except.bind, Except.map]
    | ok s =>
      cases value : ((type.element?.getD type).fresh t.platform).assignOperand s <;>
        simp [Term.value, scalar, value, bind, Except.bind, Except.map, pure, Except.pure]

theorem isRange_single (n : Nat) (term : Term) : Query.isRange (placed n term.pieces) = false := by
  obtain ⟨c, s, text, -, square, round⟩ := term.placed_start n
  simp [Query.isRange, text, square, round]

theorem isRange_brackets (openLow openHigh : Bool) (low high : List Char) :
    Query.isRange ((if openLow then '(' else '[') ::
      (low ++ ':' :: (high ++ [if openHigh then ')' else ']']))) = true := by
  have last : ∀ close : Char, ((if openLow then '(' else '[') ::
      (low ++ ':' :: (high ++ [close]))).getLast? = some close := by
    intro close
    rw [← List.cons_append, ← List.cons_append, ← List.append_assoc, List.getLast?_concat]
  rw [Query.isRange, last]
  cases openLow <;> cases openHigh <;> simp

theorem range_brackets [Libraries] (t : SearchTarget) (name : List Char) (openLow openHigh : Bool)
    {low : List Char} (high : List Char) (noColon : ':' ∉ low) :
    t.range name ((if openLow then '(' else '[') ::
      (low ++ ':' :: (high ++ [if openHigh then ')' else ']']))) =
      if t.platform.isMainframe then t.mainframeRange name low high openLow openHigh
      else t.openRange name low high openLow openHigh := by
  have inner : (low ++ ':' :: (high ++ [if openHigh then ')' else ']'])).dropLast =
      low ++ ':' :: high := by
    rw [← List.cons_append, ← List.append_assoc, List.dropLast_concat]
  have inLow : ∀ c ∈ low, (c != ':') = true := by
    intro c hc
    rw [bne_iff_ne]
    rintro rfl
    exact noColon hc
  have lowText : (low ++ ':' :: high).takeWhile (· != ':') = low := by
    rw [List.takeWhile_append_of_pos inLow, List.takeWhile_cons_of_neg (by simp), List.append_nil]
  have highText : (low ++ ':' :: high).dropWhile (· != ':') = ':' :: high := by
    rw [List.dropWhile_append_of_pos inLow, List.dropWhile_cons_of_neg (by simp)]
  have first : ((if openLow then '(' else '[') == '(') = openLow := by cases openLow <;> decide
  have last : ((if openHigh then ')' else ']') == ')') = openHigh := by cases openHigh <;> decide
  have lastChar : ∀ close : Char, ((if openLow then '(' else '[') ::
      (low ++ ':' :: (high ++ [close]))).getLast? = some close := by
    intro close
    rw [← List.cons_append, ← List.cons_append, ← List.append_assoc, List.getLast?_concat]
  simp only [SearchTarget.range, List.tail_cons, inner, lowText, highText, List.head?_cons,
    lastChar, Option.some_beq_some, first, last]

/-- Bounds are read once in a written range and up to twice by the compiler, with one outcome. -/
theorem range_placed [Libraries] {t : SearchTarget} {n m : Nat} (name : List Char)
    (openLow openHigh : Bool)
    (low high : Term) (lowHolds : Holds t.constants n low.pieces)
    (highHolds : Holds t.constants m high.pieces) :
    (if t.platform.isMainframe then
        t.mainframeRange name (placed n low.pieces) (placed m high.pieces) openLow openHigh
      else t.openRange name (placed n low.pieces) (placed m high.pieces) openLow openHigh) =
      ((t.definition.field (String.ofList name)).bind fun type =>
        (low.value t (type.element?.getD type)).bind fun lower =>
          (high.value t (type.element?.getD type)).map fun upper =>
            rangeNode t.platform.isMainframe (String.ofList name) openLow openHigh lower
              upper) := by
  have lowLeaf := fun comparator => leaf_placed name comparator low lowHolds
  have highLeaf := fun comparator => leaf_placed name comparator high highHolds
  cases found : t.definition.field (String.ofList name) with
  | error fault =>
    simp [SearchTarget.mainframeRange, SearchTarget.openRange, lowLeaf, found, bind, Except.bind]
  | ok type =>
    cases lower : low.value t (type.element?.getD type) with
    | error fault =>
      simp [SearchTarget.mainframeRange, SearchTarget.openRange, lowLeaf, found, lower, bind,
        Except.bind, Except.map]
    | ok lowValue =>
      cases upper : high.value t (type.element?.getD type) with
      | error fault =>
        simp [SearchTarget.mainframeRange, SearchTarget.openRange, lowLeaf, highLeaf, found, lower,
          upper, bind, Except.bind, Except.map]
      | ok highValue =>
        cases mainframe : t.platform.isMainframe <;> cases openLow <;> cases openHigh <;>
          simp [SearchTarget.mainframeRange, SearchTarget.openRange, lowLeaf, highLeaf, found,
            lower, upper, rangeNode, excluded, bind, Except.bind, Except.map, pure, Except.pure]

namespace Predicate

theorem text_placed (n : Nat) (p : Predicate) :
    placed n p.pieces = p.name ++ (p.comparison.sign.text ++ placed n p.comparison.operand) := by
  simp [pieces, placed]

theorem compile_placed [Libraries] {t : SearchTarget} {n : Nat} (p : Predicate)
    (named : p.name ≠ [])
    (holds : Holds t.constants n p.pieces) : t.predicate (placed n p.pieces) = p.node t := by
  obtain ⟨o, more, start, noOperator⟩ := p.comparison.placed_start n
  have parts := Query.predicateParts_text p.comparison.sign named
    (Text.trim_of_noBlank p.noBlank) (fun c hc => (p.plain c hc).2.2) start noOperator
    (Text.trim_of_noBlank (p.comparison.noBlank_placed n))
  rw [text_placed, t.predicate_of_parts parts, node, compared]
  cases comparison : p.comparison with
  | single sign term =>
    have termHolds : Holds t.constants n term.pieces := by
      simpa [Holds, pieces, comparison, Comparison.operand, literals] using holds
    simp only [Comparison.operand, Comparison.sign, isRange_single, leaf_placed _ _ _ termHolds,
      Bool.false_eq_true, if_false]
    cases t.definition.field (String.ofList p.name) with
    | error fault => rfl
    | ok type => cases value : term.value t (type.element?.getD type) <;>
        simp [Comparison.node, value, bind, Except.bind, Except.map, pure, Except.pure]
  | range doubled openLow openHigh low high =>
    have bounds : Holds t.constants n (low.term.pieces ++ high.term.pieces) := by
      simpa [Holds, pieces, comparison, Comparison.operand, literals] using holds
    have text : placed n (Comparison.range doubled openLow openHigh low high).operand =
        (if openLow then '(' else '[') :: (placed n low.term.pieces ++ ':' ::
          (placed (n + (literals low.term.pieces).length) high.term.pieces ++
            [if openHigh then ')' else ']'])) := by
      simp [Comparison.operand, placed, Piece.placed_append]
    have equality : (Comparison.range doubled openLow openHigh low high).sign.comparator =
        .equal := by
      cases doubled <;> rfl
    simp only [text, equality, isRange_brackets, range_brackets t p.name openLow openHigh _
      (low.noColon_placed n), range_placed p.name openLow openHigh low.term high.term bounds.left
      bounds.right, if_true]
    cases t.definition.field (String.ofList p.name) with
    | error fault => rfl
    | ok type =>
      cases lower : low.term.value t (type.element?.getD type) with
      | error fault => simp [Comparison.node, lower, bind, Except.bind, Except.map]
      | ok lowValue =>
        cases upper : high.term.value t (type.element?.getD type) <;>
          simp [Comparison.node, lower, upper, bind, Except.bind, Except.map, pure, Except.pure]

end Predicate

end RecordCodec.Written
