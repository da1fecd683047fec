import RecordCodec.Libraries.Standard
import RecordCodec.Proofs.Search.Chains
import RecordCodec.Proofs.Search.Leaves

/-!
The compiler reads a written query as what it means, or fails as one of its operands does. No
keyword starts inside a predicate, and no `AND` inside a group.
-/
namespace RecordCodec.Written

open Query (Piece)
open Query.Piece (placed literals)

namespace Predicate

theorem noBlank_placed (n : Nat) (p : Predicate) : Text.NoBlank (placed n p.pieces) := by
  have sign : Text.NoBlank p.comparison.sign.text := by
    cases p.comparison.sign <;> decide
  rw [p.text_placed n]
  exact p.noBlank.append (sign.append (p.comparison.noBlank_placed n))

theorem placed_operator (n : Nat) (p : Predicate) : ∃ o rest,
    placed n p.pieces = p.name ++ o :: rest ∧ Comparator.isOperatorChar o = true := by
  have sign : ∃ o rest, p.comparison.sign.text = o :: rest ∧
      Comparator.isOperatorChar o = true := by
    cases p.comparison.sign <;> exact ⟨_, _, rfl, by decide⟩
  obtain ⟨o, rest, text, operator⟩ := sign
  exact ⟨o, rest ++ placed n p.comparison.operand, by simp [p.text_placed n, text], operator⟩

theorem hasWord_placed (n : Nat) (p : Predicate) : Text.HasWord (placed n p.pieces) := by
  obtain ⟨o, rest, text, operator⟩ := p.placed_operator n
  exact ⟨o, by simp [text], Comparator.isBlank_of_isOperatorChar operator⟩

theorem noSpace_placed (n : Nat) (p : Predicate) : ' ' ∉ placed n p.pieces := by
  intro space
  have notBlank := p.noBlank_placed n ' ' space
  exact absurd notBlank (by decide)

theorem node_leaves [Libraries] {t : SearchTarget} {p : Predicate} {node : SearchNode}
    (h : p.node t = .ok node) : ∃ type, p.compared t = .ok type ∧ node.leaves ≠ [] ∧
      ∀ leaf ∈ node.leaves, leaf.shortName = type.shortName := by
  obtain ⟨type, compared, h⟩ := Outcome.bind_ok.mp h
  have named : ∀ {term : Term} {v : Value}, term.value t type = .ok v →
      v.shortName = type.shortName := by
    intro term v hv
    obtain ⟨s, -, assigned⟩ := Outcome.bind_ok.mp hv
    have place := Value.place_assignOperand assigned
    rw [FieldType.place_fresh] at place
    simp [Value.shortName, place, Place.shortName]
  refine ⟨type, compared, ?_⟩
  cases comparison : p.comparison with
  | single sign term =>
    rw [comparison] at h
    obtain ⟨v, hv, h⟩ := Outcome.bind_ok.mp h
    cases h
    simp [SearchNode.leaves, RecordCodec.Predicate.shortName, named hv]
  | range doubled openLow openHigh low high =>
    rw [comparison] at h
    obtain ⟨lower, hlower, h⟩ := Outcome.bind_ok.mp h
    obtain ⟨upper, hupper, h⟩ := Outcome.bind_ok.mp h
    cases h
    cases mainframe : t.platform.isMainframe <;> cases openLow <;> cases openHigh <;>
      simp [rangeNode, excluded, SearchNode.leaves, SearchNode.leavesOfAll,
        RecordCodec.Predicate.shortName, named hlower, named hupper]

end Predicate

theorem onOneField_iff {nodes : List SearchNode} (name : String)
    (some : ∃ leaf ∈ SearchNode.leavesOfAll nodes, leaf.shortName = name) :
    SearchTarget.onOneField nodes = true ↔
      ∀ leaf ∈ SearchNode.leavesOfAll nodes, leaf.shortName = name := by
  obtain ⟨given, hgiven, rfl⟩ := some
  rw [SearchTarget.onOneField]
  cases leaves : SearchNode.leavesOfAll nodes with
  | nil => rw [leaves] at hgiven; cases hgiven
  | cons first others =>
    rw [leaves] at hgiven
    simp only [List.map_cons, List.all_map, List.all_eq_true, Function.comp_apply, beq_iff_eq]
    constructor
    · intro same leaf hleaf
      have toFirst : ∀ x ∈ first :: others, x.shortName = first.shortName := by
        intro x hx
        rcases List.mem_cons.mp hx with rfl | later
        · rfl
        · exact same x later
      exact (toFirst leaf hleaf).trans (toFirst given hgiven).symm
    · intro same leaf hleaf
      exact (same leaf (List.mem_cons_of_mem _ hleaf)).trans
        (same first (List.mem_cons_self ..)).symm

namespace Group

/-- The compiler sees from the leaves of a group whether its predicates are on one field. -/
theorem onOneField_nodes [Libraries] {t : SearchTarget} {g : Group} {nodes : List SearchNode}
    (h : g.items.mapM (Predicate.node t) = .ok nodes) :
    SearchTarget.onOneField nodes = onOneField t g := by
  obtain ⟨fromItems, intoNodes⟩ := Outcome.mapM_ok h
  obtain ⟨firstNode, hfirst, read⟩ := intoNodes g.first (List.mem_cons_self ..)
  obtain ⟨firstType, firstCompared, given, firstNames⟩ := Predicate.node_leaves read
  obtain ⟨leaf, hleaf⟩ := List.exists_mem_of_ne_nil _ given
  rw [Bool.eq_iff_iff, onOneField_iff firstType.shortName
    ⟨leaf, SearchNode.mem_leavesOfAll.mpr ⟨firstNode, hfirst, hleaf⟩, firstNames leaf hleaf⟩]
  simp only [onOneField, List.all_eq_true, beq_iff_eq, firstCompared]
  constructor
  · intro same p hp
    obtain ⟨node, hnode, read⟩ := intoNodes p hp
    obtain ⟨type, compared, given, names⟩ := Predicate.node_leaves read
    obtain ⟨leaf, hleaf⟩ := List.exists_mem_of_ne_nil _ given
    have name := same leaf (SearchNode.mem_leavesOfAll.mpr ⟨node, hnode, hleaf⟩)
    rw [names leaf hleaf] at name
    simp [compared, Except.toOption, name]
  · intro same leaf hleaf
    obtain ⟨node, hnode, hleaf⟩ := SearchNode.mem_leavesOfAll.mp hleaf
    obtain ⟨p, hp, read⟩ := fromItems node hnode
    obtain ⟨type, compared, -, names⟩ := Predicate.node_leaves read
    have name := same p hp
    rw [names leaf hleaf]
    simpa [compared, Except.toOption] using name

end Group

namespace Predicate

theorem collapse_placed (n : Nat) (p : Predicate) :
    Text.collapse (placed n p.pieces) = placed n p.pieces :=
  Text.collapse_of_noBlank (p.noBlank_placed n)

theorem quiet_placed (keyword : List Char) (n : Nat) (p : Predicate) :
    Query.Quiet (spaced keyword) (placed n p.pieces) :=
  Query.quiet_of_noSpace _ (p.noSpace_placed n)

theorem quiet_joint (n : Nat) (j : Joint ['O', 'R']) (p : Predicate) :
    Query.Quiet (spaced ['A', 'N', 'D']) (spaced j.word ++ placed n p.pieces) := by
  have word := j.word_text (by simp) (by decide)
  have noSpace : ' ' ∉ j.word := by
    intro space
    have notBlank := word.2 ' ' space
    exact absurd notBlank (by decide)
  obtain ⟨o, rest, text, operator⟩ := p.placed_operator n
  have text' : spaced j.word ++ placed n p.pieces =
      ' ' :: (j.word ++ ' ' :: placed n p.pieces) := by
    simp [spaced]
  rw [text']
  refine ⟨fun rest h => ?_, (Query.quiet_of_noSpace _ noSpace).append ⟨fun rest' h => ?_, ?_⟩⟩
  · obtain ⟨c, w, hw⟩ := List.exists_cons_of_ne_nil word.1
    have letters := j.same_letters
    rw [hw] at h letters
    have first := (Query.matches_cons.mp (Query.matches_cons.mp h).2).1
    rw [(List.cons.inj letters).1] at first
    exact absurd first (by decide)
  · have inner := (Query.matches_cons.mp h).2
    rw [text, List.append_assoc] at inner
    have noSpaceName : ' ' ∉ p.name := by
      intro space
      have notBlank := p.noBlank ' ' space
      exact absurd notBlank (by decide)
    exact Query.not_matches_operator noSpaceName (by decide) operator inner
  · exact p.quiet_placed _ n

theorem valid_pieces (p : Predicate) : ∀ x ∈ p.pieces, x.Valid := by
  have term : ∀ term : Term, ∀ x ∈ term.pieces, x.Valid := by
    intro term x hx
    cases term with
    | literal l =>
      cases List.mem_singleton.mp hx
      exact l.wellQuoted
    | bare b =>
      cases List.mem_singleton.mp hx
      exact b.noQuote
  have operand : ∀ x ∈ p.comparison.operand, x.Valid := by
    intro x hx
    cases comparison : p.comparison with
    | single sign inner =>
      rw [comparison] at hx
      exact term inner x hx
    | range doubled openLow openHigh low high =>
      rw [comparison] at hx
      simp only [Comparison.operand, List.mem_cons, List.mem_append, List.not_mem_nil,
        or_false] at hx
      rcases hx with rfl | inLow | rfl | inHigh | rfl
      · cases openLow <;> simp [Piece.Valid]
      · exact term _ x inLow
      · simp [Piece.Valid]
      · exact term _ x inHigh
      · cases openHigh <;> simp [Piece.Valid]
  intro x hx
  rcases List.mem_cons.mp hx with rfl | hx
  · exact fun quote => (p.plain '\'' quote).1 rfl
  · rcases List.mem_cons.mp hx with rfl | hx
    · show '\'' ∉ p.comparison.sign.text
      cases p.comparison.sign <;> decide
    · exact operand x hx

end Predicate

namespace Group

theorem hasWord_placed (n : Nat) (g : Group) :
    Text.HasWord (placed n (Chain.pieces Predicate.pieces g)) := by
  rw [Chain.pieces, Piece.placed_append]
  exact (g.first.hasWord_placed n).append _

theorem quiet_placed (n : Nat) (g : Group) : Query.Quiet (spaced ['A', 'N', 'D'])
    (Text.collapse (placed n (Chain.pieces Predicate.pieces g))) := by
  have text := fun x => @Chain.mem_texts _ _ Predicate.pieces
    (n + (literals g.first.pieces).length) g.rest x
  rw [Chain.pieces, Piece.placed_append, Chain.placed_rest, collapse_joined (by simp)
    (by decide) (g.first.hasWord_placed n)]
  · apply Query.Quiet.joined
    · rw [g.first.collapse_placed]
      exact g.first.quiet_placed _ n
    · intro x hx
      obtain ⟨⟨j, s⟩, hjs, rfl⟩ := List.mem_map.mp hx
      obtain ⟨m, p, -, rfl⟩ := text _ hjs
      show Query.Quiet _ (spaced j.word ++ Text.collapse (placed m p.pieces))
      rw [p.collapse_placed]
      exact p.quiet_joint m j
  · intro x hx
    obtain ⟨m, p, -, same⟩ := text x hx
    rw [same]
    exact p.hasWord_placed m

theorem compile_placed [Libraries] {t : SearchTarget} (n : Nat) (g : Group)
    (named : ∀ p ∈ g.items, p.name ≠ [])
    (holds : Holds t.constants n (Chain.pieces Predicate.pieces g)) :
    t.disjunction (Text.collapse (placed n (Chain.pieces Predicate.pieces g))) = node t g := by
  have agree : ∀ n, ∀ p ∈ g.items, Holds t.constants n p.pieces →
      t.predicate (Text.collapse (placed n p.pieces)) = p.node t := by
    intro m p hp holds
    rw [p.collapse_placed]
    exact p.compile_placed (named p hp) holds
  rw [disjunction_parts]
  apply Chain.compile_placed g n (by simp) (by decide)
    (fun m p _ => p.hasWord_placed m) _ holds agree
  · intro alone
    have text : Chain.pieces Predicate.pieces g = g.first.pieces := by
      simp [Chain.pieces, alone]
    rw [text] at holds ⊢
    rw [Text.trim_collapse]
    exact agree n g.first (List.mem_cons_self ..) holds
  · intro nodes h
    rw [onOneField_nodes h]
  · intro m p _
    rw [p.collapse_placed]
    exact p.quiet_placed _ m

end Group

namespace Groups

theorem compile_placed [Libraries] {t : SearchTarget} (q : Groups)
    (named : ∀ p ∈ q.predicates, p.name ≠ []) (holds : Holds t.constants 0 q.pieces) :
    t.conjunction (Text.collapse (placed 0 q.pieces)) = q.node t := by
  have inGroup : ∀ g ∈ q.items, ∀ p ∈ g.items, p.name ≠ [] := fun g hg p hp =>
    named p (List.mem_flatMap.mpr ⟨g, hg, hp⟩)
  have agree : ∀ n, ∀ g ∈ q.items, Holds t.constants n (Chain.pieces Predicate.pieces g) →
      t.disjunction (Text.collapse (placed n (Chain.pieces Predicate.pieces g))) =
        Group.node t g :=
    fun n g hg holds => g.compile_placed n (inGroup g hg) holds
  rw [conjunction_parts]
  apply Chain.compile_placed q 0 (by simp) (by decide)
    (fun m g _ => Group.hasWord_placed m g) (fun m g _ => Group.quiet_placed m g) holds agree
  · intro alone
    have text : q.pieces = Chain.pieces Predicate.pieces q.first := by
      simp [pieces, Chain.pieces, alone]
    rw [text] at holds ⊢
    exact agree 0 q.first (List.mem_cons_self ..) holds
  · intro nodes _
    rfl

theorem valid_pieces (q : Groups) : ∀ x ∈ q.pieces, x.Valid := by
  apply Chain.valid_pieces q (by decide)
  intro g _
  exact Chain.valid_pieces g (by decide) fun p _ => p.valid_pieces

theorem refused_of_node [Libraries] {t : SearchTarget} {q : Groups} {fault : FieldFault}
    (resolved : ∀ p ∈ q.predicates, ∃ type, t.definition.field (String.ofList p.name) = .ok type)
    (h : q.node t = .error fault) : ∃ p ∈ q.predicates, p.Refused t fault := by
  have inChain : ∀ {keyword : List Char} {α : Type} {node : α → Except FieldFault SearchNode}
      {join : List SearchNode → SearchNode} {c : Chain keyword α},
      c.node node join = .error fault → ∃ a ∈ c.items, node a = .error fault := by
    intro keyword α node join c h
    rcases Outcome.bind_error.mp h with h | ⟨nodes, -, h⟩
    · exact Outcome.mapM_error h
    · split at h <;> cases h
  obtain ⟨g, hg, h⟩ := inChain h
  obtain ⟨p, hp, h⟩ := inChain h
  have member : p ∈ q.predicates := List.mem_flatMap.mpr ⟨g, hg, hp⟩
  obtain ⟨found, hfound⟩ := resolved p member
  refine ⟨p, member, found.element?.getD found, ?_, ?_⟩
  · simp [Predicate.compared, hfound, Except.map]
  simp only [Predicate.node, Predicate.compared, hfound, Except.map, bind, Except.bind] at h
  rw [Predicate.terms]
  cases comparison : p.comparison with
  | single sign term =>
    rw [comparison] at h
    rcases Outcome.bind_error.mp h with h | ⟨_, -, h⟩
    · exact ⟨term, by simp, h⟩
    · cases h
  | range doubled openLow openHigh low high =>
    rw [comparison] at h
    rcases Outcome.bind_error.mp h with h | ⟨_, -, h⟩
    · exact ⟨low.term, by simp, h⟩
    · rcases Outcome.bind_error.mp h with h | ⟨_, -, h⟩
      · exact ⟨high.term, by simp, h⟩
      · cases h

end Groups

def sampleField (name : String) (length : Nat) : FieldType :=
  { FieldType.ofKind (.text .short false) name with length }

def oddNames : List String :=
  ["", "A=B", "A'B", "A  B", "A AND B", "A OR B"]

def sampleTypes : List FieldType :=
  sampleField "AA" 0 :: oddNames.map fun name => sampleField name 4

def sampleTarget : SearchTarget where
  platform := .openSystem
  definition :=
    { platform := .openSystem
      types := sampleTypes
      index := (sampleTypes.map fun t => (t.shortName, t)).reverse
      values := sampleTypes.map (FieldType.fresh .openSystem) }
  byteOrder := .big
  constants := []

example : Definition.ofTypes .openSystem sampleTypes = .ok sampleTarget.definition :=
  rfl

/-- A query of named predicates on known fields compiles to the tree that it means, unless one of
its operands is refused. -/
theorem written_query_compiles [Libraries] (t : SearchTarget) (q : Groups)
    (named : ∀ p ∈ q.predicates, p.name ≠ [])
    (resolved : ∀ p ∈ q.predicates, ∃ type, t.definition.field (String.ofList p.name) = .ok type) :
    q.Compiles t := by
  let target : SearchTarget := { t with constants := literals q.pieces }
  have read : target.conjunction (Text.collapse (placed 0 q.pieces)) = q.node t :=
    q.compile_placed (t := target) named (by simp [Holds, target])
  have compiled : Query.compile ⟨Text.collapse (placed 0 q.pieces), literals q.pieces⟩
      t.platform t.definition t.byteOrder =
      (q.node t).map fun root => ⟨root, t.platform.isMainframe, t.byteOrder⟩ := by
    rw [← read]
    rfl
  refine ⟨_, Query.ofText_textOf q.valid_pieces, ?_⟩
  rw [compiled]
  cases tree : q.node t with
  | error fault =>
    obtain ⟨p, hp, refused⟩ := Groups.refused_of_node resolved tree
    exact .inl ⟨p, hp, fault, refused, rfl⟩
  | ok root => exact .inr ⟨root, rfl, rfl⟩

def sampleBare (c : Char) (plain : Text.isBlank c = false ∧ c ≠ '\'' ∧ c ≠ '#' ∧ c ≠ '[' ∧
    c ≠ '(' ∧ Comparator.isOperatorChar c = false) : Bare where
  chars := [c]
  given := by simp
  noBlank := Text.noBlank_nil.cons plain.1
  noQuote := by simpa using plain.2.1.symm
  noHash := by simpa using plain.2.2.1.symm
  start := by
    intro d same
    cases same
    exact ⟨plain.2.2.2.2.2, plain.2.2.2.1, plain.2.2.2.2.1⟩

def samplePredicate (comparison : Comparison) : Predicate :=
  ⟨['A', 'A'], comparison, by decide, by simp; decide⟩

def sampleJoint {keyword : List Char} (word : List Char)
    (same : word.map Text.upperAscii = keyword) : Joint keyword :=
  ⟨['\t'], word, [' ', ' '], by simp, by simp, by simp [Text.isBlank], by simp [Text.isBlank], same⟩

def sampleQuery : Groups where
  first :=
    { first := samplePredicate
        (.single .equal (.literal ⟨"O\\'N OR x".toList, (Query.endsAtQuote_iff _).mp rfl⟩))
      rest := [(sampleJoint ['o', 'r'] (by decide), samplePredicate (.range false false true
        ⟨.bare (sampleBare '1' (by decide)), by rintro _ ⟨⟩; decide⟩
        ⟨.bare (sampleBare '2' (by decide)), by rintro _ ⟨⟩; decide⟩))] }
  rest := [(sampleJoint ['A', 'n', 'd'] (by decide),
    ⟨samplePredicate (.single .greaterOrEqual (.bare (sampleBare '5' (by decide)))), []⟩)]

theorem sample_query_compiles :
    sampleQuery.text = "AA='O\\'N OR x'\tor  AA=[1:2)\tAnd  AA>=5".toList ∧
      (∀ p ∈ sampleQuery.predicates, p.name ≠ []) ∧
      (∀ p ∈ sampleQuery.predicates,
        ∃ type, sampleTarget.definition.field (String.ofList p.name) = .ok type) ∧
      sampleQuery.Compiles sampleTarget := by
  have names : ∀ p ∈ sampleQuery.predicates, p.name = ['A', 'A'] := by
    intro p hp
    have member : p ∈ [_, _, _] := hp
    rcases List.mem_cons.mp member with rfl | member
    · rfl
    · rcases List.mem_cons.mp member with rfl | member
      · rfl
      · cases List.mem_singleton.mp member
        rfl
  have named : ∀ p ∈ sampleQuery.predicates, p.name ≠ [] := by
    intro p hp
    rw [names p hp]
    simp
  have resolved : ∀ p ∈ sampleQuery.predicates,
      ∃ type, sampleTarget.definition.field (String.ofList p.name) = .ok type := by
    intro p hp
    rw [names p hp]
    exact ⟨sampleField "AA" 0, rfl⟩
  exact ⟨rfl, named, resolved, written_query_compiles sampleTarget sampleQuery named resolved⟩

def namelessQuery : Groups where
  first := ⟨⟨[], .single .equal (.bare (sampleBare 'X' (by decide))), by decide, by simp⟩, []⟩
  rest := []

theorem nameless_query_refused : ¬∀ (t : SearchTarget) (q : Groups),
    (∀ p ∈ q.predicates, ∃ type, t.definition.field (String.ofList p.name) = .ok type) →
      q.Compiles t := by
  intro claimed
  have resolved : ∀ p ∈ namelessQuery.predicates,
      ∃ type, sampleTarget.definition.field (String.ofList p.name) = .ok type := by
    intro p hp
    have member : p ∈ [_] := hp
    cases List.mem_singleton.mp member
    exact ⟨sampleField "" 4, rfl⟩
  obtain ⟨query, extracted, outcome⟩ := claimed sampleTarget namelessQuery resolved
  have search : Query.ofText namelessQuery.text = .ok ⟨['=', 'X'], []⟩ := rfl
  rw [search] at extracted
  cases extracted
  have failed : Query.compile ⟨['=', 'X'], []⟩ sampleTarget.platform sampleTarget.definition
      sampleTarget.byteOrder = .error (.invalidComparator "=X") := rfl
  rcases outcome with ⟨p, hp, fault, ⟨type, compared, term, inTerms, refused⟩, -⟩ | ⟨_, _, compiled⟩
  · have member : p ∈ [_] := hp
    cases List.mem_singleton.mp member
    cases compared
    cases List.mem_singleton.mp inTerms
    cases refused
  · rw [failed] at compiled
    cases compiled

end RecordCodec.Written
