import RecordCodec.Proofs.Outcome
import RecordCodec.Proofs.Search.Splitting
import RecordCodec.Proofs.Value.Assignment

/-!
The predicates that a query is made of. However they are joined, a compiled query has the nodes of
its predicates from left to right; each of them is on the field that its name stands for, and the
nodes of a range compare with no more than the range says.
-/
namespace RecordCodec

namespace Query

def predicateTexts (s : List Char) : List (List Char) :=
  (split conjunctionKeyword s).flatMap (split disjunctionKeyword)

theorem splitFrom_ne_nil (keyword s : List Char) (skip : Nat) (part : List Char) :
    splitFrom keyword skip part s ≠ [] := by
  induction s generalizing skip part with
  | nil => cases skip <;> simp [splitFrom]
  | cons c s ih =>
    cases skip with
    | zero =>
      rw [splitFrom]
      split
      · simp
      · exact ih 0 (c :: part)
    | succ skip => exact ih skip part

theorem split_ne_nil (keyword s : List Char) : split keyword s ≠ [] := by
  rw [split, Ne, List.map_eq_nil_iff]
  exact splitFrom_ne_nil keyword s 0 []

theorem predicateTexts_ne_nil (s : List Char) : predicateTexts s ≠ [] := by
  intro none
  obtain ⟨part, listed⟩ := List.exists_mem_of_ne_nil _ (split_ne_nil conjunctionKeyword s)
  exact split_ne_nil disjunctionKeyword part (List.flatMap_eq_nil_iff.mp none part listed)

theorem splitFrom_whole {keyword s part whole : List Char}
    (h : splitFrom keyword 0 part s = [whole]) : whole = part.reverse ++ s := by
  induction s generalizing part with
  | nil => simpa [splitFrom] using h.symm
  | cons c s ih =>
    rw [splitFrom] at h
    split at h
    · exact absurd (List.cons.inj h).2 (splitFrom_ne_nil _ _ _ _)
    · simpa using ih h

theorem split_whole {keyword s whole : List Char} (h : split keyword s = [whole]) :
    whole = Text.trim s := by
  obtain ⟨part, single, rfl⟩ := List.map_eq_singleton_iff.mp h
  rw [splitFrom_whole single]
  rfl

end Query

namespace SearchNode

theorem leavesOfAll_eq (nodes : List SearchNode) : leavesOfAll nodes = nodes.flatMap leaves := by
  induction nodes with
  | nil => rfl
  | cons node rest ih => rw [leavesOfAll, ih, List.flatMap_cons]

theorem anyContainsLogic_eq (wanted : Logic) (nodes : List SearchNode) :
    anyContainsLogic wanted nodes = nodes.any (containsLogic wanted) := by
  induction nodes with
  | nil => rfl
  | cons node rest ih => rw [anyContainsLogic, ih, List.any_cons]

/-- A node has the predicates of some nodes from left to right, and a range where one has. -/
structure Gathers (node : SearchNode) (nodes : List SearchNode) : Prop where
  leaves : node.leaves = nodes.flatMap SearchNode.leaves
  range : node.containsLogic .range = nodes.any (containsLogic .range)

theorem gathers_single (node : SearchNode) : node.Gathers [node] :=
  ⟨by simp, by simp⟩

theorem gathers_branch {logic : Logic} (plain : logic ≠ .range) (nodes : List SearchNode) :
    (branch logic nodes).Gathers nodes where
  leaves := leavesOfAll_eq nodes
  range := by
    rw [containsLogic, anyContainsLogic_eq, beq_eq_false_iff_ne.mpr plain, Bool.false_or]

theorem Gathers.flatten {node : SearchNode} {nodes : List SearchNode}
    {inner : List (List SearchNode)} (outer : node.Gathers nodes)
    (each : List.Forall₂ Gathers nodes inner) : node.Gathers inner.flatten := by
  obtain ⟨leaves, range⟩ := outer
  refine ⟨leaves.trans ?_, range.trans ?_⟩
  · clear leaves range
    induction each with
    | nil => rfl
    | cons here _ ih => simp [here.leaves, ih]
  · clear leaves range
    induction each with
    | nil => rfl
    | cons here _ ih => simp [here.range, ih]

end SearchNode

namespace SearchTarget

open Query SearchNode

variable {t : SearchTarget} {node : SearchNode}

variable [Libraries]

theorem disjunction_gathers {s : List Char} (h : t.disjunction s = .ok node) :
    ∃ nodes, (split disjunctionKeyword s).mapM t.predicate = .ok nodes ∧ node.Gathers nodes := by
  unfold disjunction at h
  split at h
  · rename_i none
    exact absurd none (split_ne_nil _ _)
  · rename_i whole single
    rw [single, split_whole single, List.mapM_cons, h]
    exact ⟨[node], rfl, gathers_single node⟩
  · obtain ⟨nodes, read, h⟩ := Outcome.bind_ok.mp h
    cases h
    refine ⟨nodes, read, gathers_branch ?_ nodes⟩
    split <;> decide

theorem disjunctions_gather {parts : List (List Char)} {nodes : List SearchNode}
    (h : parts.mapM t.disjunction = .ok nodes) :
    ∃ inner, (parts.flatMap (split disjunctionKeyword)).mapM t.predicate = .ok inner.flatten ∧
      List.Forall₂ Gathers nodes inner := by
  induction parts generalizing nodes with
  | nil =>
    cases h
    exact ⟨[], rfl, .nil⟩
  | cons part rest ih =>
    rw [List.mapM_cons] at h
    obtain ⟨node, here, h⟩ := Outcome.bind_ok.mp h
    obtain ⟨nodes, later, h⟩ := Outcome.bind_ok.mp h
    cases h
    obtain ⟨first, read, gathers⟩ := disjunction_gathers here
    obtain ⟨inner, reads, all⟩ := ih later
    refine ⟨first :: inner, ?_, .cons gathers all⟩
    rw [List.flatMap_cons, List.mapM_append, read, reads]
    rfl

theorem conjunction_gathers {s : List Char} (trimmed : Text.trim s = s)
    (h : t.conjunction s = .ok node) :
    ∃ nodes, (predicateTexts s).mapM t.predicate = .ok nodes ∧ node.Gathers nodes := by
  unfold conjunction at h
  split at h
  · rename_i none
    exact absurd none (split_ne_nil _ _)
  · rename_i whole single
    rw [predicateTexts, single, split_whole single, trimmed, List.flatMap_singleton]
    exact disjunction_gathers h
  · obtain ⟨nodes, read, h⟩ := Outcome.bind_ok.mp h
    cases h
    obtain ⟨inner, reads, all⟩ := disjunctions_gather read
    exact ⟨inner.flatten, reads, (gathers_branch (by decide) nodes).flatten all⟩

end SearchTarget

/-- What a predicate of a query refers to: a field, the comparator, and whether it is a range. -/
structure Clause where
  field : FieldType
  comparator : Comparator
  isRange : Bool

namespace Query

def clause (d : Definition) (s : List Char) : Except FieldFault Clause := do
  let (name, comparator, operand) ← predicateParts s
  let field ← d.field (String.ofList name)
  return ⟨field, comparator, isRange operand⟩

def clauses (d : Definition) (q : Query) : Except FieldFault (List Clause) :=
  (predicateTexts q.search).mapM (clause d)

end Query

/-- The field whose values a predicate on a field compares: a multiple-value field is compared by
its element. -/
def FieldType.compared (t : FieldType) : FieldType :=
  t.element?.getD t

/-- What a clause becomes: predicates on the compared field, with an inequality where the clause has
one, and else only in a range on a mainframe. -/
structure Clause.Compiled (mainframe : Bool) (node : SearchNode) (c : Clause) : Prop where
  some : node.leaves ≠ []
  fields : ∀ p ∈ node.leaves, p.operand.type = c.field.compared
  unequal : c.comparator = .notEqual → ∃ p ∈ node.leaves, p.comparator = .notEqual
  unequal_of_leaf : ∀ p ∈ node.leaves, p.comparator = .notEqual →
    c.comparator = .notEqual ∨ mainframe = true ∧ c.isRange = true
  range : node.containsLogic .range = c.isRange

theorem Clause.compiled_range {mainframe : Bool} {field : FieldType} {nodes : List SearchNode}
    (some : SearchNode.leavesOfAll nodes ≠ [])
    (fields : ∀ p ∈ SearchNode.leavesOfAll nodes, p.operand.type = field.compared)
    (unequal : ∀ p ∈ SearchNode.leavesOfAll nodes, p.comparator = .notEqual → mainframe = true) :
    Clause.Compiled mainframe (.branch .range nodes) ⟨field, .equal, true⟩ where
  some := some
  fields := fields
  unequal h := by cases h
  unequal_of_leaf p listed h := .inr ⟨unequal p listed h, rfl⟩
  range := by rw [SearchNode.containsLogic, BEq.rfl, Bool.true_or]

namespace SearchTarget

variable {t : SearchTarget} {node : SearchNode} {name : List Char} {field : FieldType}

theorem field_of_leaf [Libraries] {comparator : Comparator} {operand : List Char}
    (h : t.leaf name comparator operand = .ok node) :
    ∃ field, t.definition.field (String.ofList name) = .ok field := by
  obtain ⟨field, found, -⟩ := Outcome.bind_ok.mp h
  exact ⟨field, found⟩

section Ranges

variable (found : t.definition.field (String.ofList name) = .ok field)
include found

variable [Libraries]

theorem leaf_on {comparator : Comparator} {operand : List Char}
    (h : t.leaf name comparator operand = .ok node) :
    ∃ value : Value, value.type = field.compared ∧
      node = .leaf ⟨String.ofList name, comparator, value⟩ := by
  obtain ⟨field', found', h⟩ := Outcome.bind_ok.mp h
  rw [found] at found'
  cases found'
  obtain ⟨scalar, -, h⟩ := Outcome.bind_ok.mp h
  obtain ⟨value, assigned, h⟩ := Outcome.bind_ok.mp h
  cases h
  refine ⟨value, ?_, rfl⟩
  rw [Value.type, Value.place_assignOperand assigned, FieldType.place_fresh]
  rfl

theorem openRange_compiled {low high : List Char} {openLow openHigh mainframe : Bool}
    (h : t.openRange name low high openLow openHigh = .ok node) :
    Clause.Compiled mainframe node ⟨field, .equal, true⟩ := by
  obtain ⟨lower, hlower, h⟩ := Outcome.bind_ok.mp h
  obtain ⟨upper, hupper, h⟩ := Outcome.bind_ok.mp h
  cases h
  obtain ⟨v, onLower, rfl⟩ := leaf_on found hlower
  obtain ⟨w, onUpper, rfl⟩ := leaf_on found hupper
  apply Clause.compiled_range
  · simp [SearchNode.leavesOfAll, SearchNode.leaves]
  · simp [SearchNode.leavesOfAll, SearchNode.leaves, onLower, onUpper]
  · cases openLow <;> cases openHigh <;> simp [SearchNode.leavesOfAll, SearchNode.leaves]

theorem mainframeRange_compiled {low high : List Char} {openLow openHigh : Bool}
    (h : t.mainframeRange name low high openLow openHigh = .ok node) :
    Clause.Compiled true node ⟨field, .equal, true⟩ := by
  obtain ⟨lower, hlower, h⟩ := Outcome.bind_ok.mp h
  obtain ⟨upper, hupper, h⟩ := Outcome.bind_ok.mp h
  obtain ⟨v, onLower, rfl⟩ := leaf_on found hlower
  obtain ⟨w, onUpper, rfl⟩ := leaf_on found hupper
  have whole : ∀ excluded : List SearchNode,
      (∀ p ∈ SearchNode.leavesOfAll excluded, p.operand.type = field.compared) →
      Clause.Compiled true (.branch .range (.leaf ⟨String.ofList name, .bound, v⟩ ::
        .leaf ⟨String.ofList name, .bound, w⟩ :: excluded)) ⟨field, .equal, true⟩ := by
    intro excluded fields
    apply Clause.compiled_range
    · simp [SearchNode.leavesOfAll, SearchNode.leaves]
    · simpa [SearchNode.leavesOfAll, SearchNode.leaves, onLower, onUpper] using fields
    · exact fun _ _ _ => rfl
  cases openLow <;> cases openHigh
  case false.false =>
    cases h
    exact whole [] (by simp [SearchNode.leavesOfAll])
  case false.true =>
    obtain ⟨last, hlast, h⟩ := Outcome.bind_ok.mp h
    cases h
    obtain ⟨x, onLast, rfl⟩ := leaf_on found hlast
    exact whole _ (by simp [SearchNode.leavesOfAll, SearchNode.leaves, onLast])
  case true.false =>
    obtain ⟨first, hfirst, h⟩ := Outcome.bind_ok.mp h
    cases h
    obtain ⟨x, onFirst, rfl⟩ := leaf_on found hfirst
    exact whole _ (by simp [SearchNode.leavesOfAll, SearchNode.leaves, onFirst])
  case true.true =>
    obtain ⟨first, hfirst, h⟩ := Outcome.bind_ok.mp h
    obtain ⟨last, hlast, h⟩ := Outcome.bind_ok.mp h
    cases h
    obtain ⟨x, onFirst, rfl⟩ := leaf_on found hfirst
    obtain ⟨y, onLast, rfl⟩ := leaf_on found hlast
    exact whole _ (by simp [SearchNode.leavesOfAll, SearchNode.leaves, onFirst, onLast])

theorem range_compiled {operand : List Char} (h : t.range name operand = .ok node) :
    Clause.Compiled t.platform.isMainframe node ⟨field, .equal, true⟩ := by
  unfold range at h
  dsimp only at h
  split at h
  · rename_i mainframe
    rw [mainframe]
    exact mainframeRange_compiled found h
  · exact openRange_compiled found h

end Ranges

variable [Libraries]

theorem field_of_range {operand : List Char} (h : t.range name operand = .ok node) :
    ∃ field, t.definition.field (String.ofList name) = .ok field := by
  unfold range at h
  dsimp only at h
  split at h
  · obtain ⟨lower, hlower, -⟩ := Outcome.bind_ok.mp h
    exact field_of_leaf hlower
  · obtain ⟨lower, hlower, -⟩ := Outcome.bind_ok.mp h
    exact field_of_leaf hlower

theorem leaf_compiled {comparator : Comparator} {operand : List Char} {mainframe : Bool}
    (found : t.definition.field (String.ofList name) = .ok field)
    (h : t.leaf name comparator operand = .ok node) :
    Clause.Compiled mainframe node ⟨field, comparator, false⟩ := by
  obtain ⟨value, on, rfl⟩ := leaf_on found h
  constructor
  · simp [SearchNode.leaves]
  · simpa [SearchNode.leaves] using on
  · simp [SearchNode.leaves]
  · simp [SearchNode.leaves]
  · rfl

theorem predicate_compiled {s : List Char} (h : t.predicate s = .ok node) :
    ∃ c, Query.clause t.definition s = .ok c ∧
      Clause.Compiled t.platform.isMainframe node c := by
  obtain ⟨⟨name, comparator, operand⟩, parts, h⟩ := Outcome.bind_ok.mp h
  have read : ∀ field, t.definition.field (String.ofList name) = .ok field →
      Query.clause t.definition s = .ok ⟨field, comparator, Query.isRange operand⟩ := by
    intro field found
    exact Outcome.bind_ok.mpr ⟨_, parts, Outcome.bind_ok.mpr ⟨field, found, rfl⟩⟩
  dsimp only at h
  split at h
  · rename_i range
    split at h
    · rename_i equal
      obtain ⟨field, found⟩ := field_of_range h
      refine ⟨_, read field found, ?_⟩
      rw [range, equal]
      exact range_compiled found h
    · cases h
  · rename_i single
    obtain ⟨field, found⟩ := field_of_leaf h
    refine ⟨_, read field found, ?_⟩
    rw [Bool.eq_false_iff.mpr single]
    exact leaf_compiled found h

end SearchTarget

theorem Query.compile_clauses [Libraries] {q : Query} {platform : Platform} {d : Definition}
    {order : ByteOrder}
    {tree : SearchTree} (trimmed : Text.trim q.search = q.search)
    (h : q.compile platform d order = .ok tree) :
    ∃ clauses nodes, q.clauses d = .ok clauses ∧ tree.root.Gathers nodes ∧
      List.Forall₂ (Clause.Compiled platform.isMainframe) nodes clauses ∧
      tree.mainframe = platform.isMainframe := by
  obtain ⟨root, compiled, h⟩ := Outcome.bind_ok.mp h
  cases h
  obtain ⟨nodes, read, gathers⟩ := SearchTarget.conjunction_gathers trimmed compiled
  obtain ⟨clauses, meant, become⟩ :=
    Outcome.mapM_forall₂ (fun _ _ => SearchTarget.predicate_compiled) read
  exact ⟨clauses, nodes, meant, gathers, become, rfl⟩

end RecordCodec
