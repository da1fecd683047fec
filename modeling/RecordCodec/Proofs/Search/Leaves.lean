import RecordCodec.Proofs.Outcome
import RecordCodec.Proofs.Value.Extent
import RecordCodec.Search.Compile

/-!
The predicates of a compiled query. Whatever the query, each of them holds a fresh value of a field
after one assignment.
-/
namespace RecordCodec

theorem SearchNode.mem_leavesOfAll {leaf : Predicate} {nodes : List SearchNode} :
    leaf ∈ leavesOfAll nodes ↔ ∃ node ∈ nodes, leaf ∈ node.leaves := by
  induction nodes with
  | nil => simp [leavesOfAll]
  | cons node nodes ih => simp [leavesOfAll, ih]

section

variable [Libraries]

def Predicate.Assigned (platform : Platform) (p : Predicate) : Prop :=
  ∃ (t : FieldType) (s : Scalar), (t.fresh platform).assignOperand s = .ok p.operand

theorem Predicate.Assigned.leaf {platform : Platform} {p : Predicate}
    (assigned : p.Assigned platform) : ∃ l, p.operand = .leaf l ∧ l.Suited ∧
      l.content ≠ .pseudo ∧ l.place.indexText = "" := by
  obtain ⟨t, s, h⟩ := assigned
  obtain ⟨l, l', fresh, operand, assigned⟩ := Value.assignOperand_leaf h
  have same := FieldType.leaf_of_freshAt fresh
  subst same
  have suited := Leaf.suited_fresh ⟨t, platform, 0, 0⟩
  have place := Leaf.place_assignOperand assigned
  have suited' := Leaf.suited_assignOperand suited assigned
  refine ⟨l', operand, suited', ?_, ?_⟩
  · intro pseudo
    have before := suited.pseudo_iff.mpr (place ▸ suited'.pseudo_iff.mp pseudo)
    rw [Leaf.assignOperand_pseudo before] at assigned
    cases assigned
  · rw [place]
    rfl

def SearchNode.Assigned (platform : Platform) (node : SearchNode) : Prop :=
  ∀ p ∈ node.leaves, p.Assigned platform

theorem SearchNode.assigned_branch {platform : Platform} {logic : Logic}
    {nodes : List SearchNode} (all : ∀ node ∈ nodes, node.Assigned platform) :
    (branch logic nodes).Assigned platform := by
  intro p hp
  obtain ⟨node, inside, hp⟩ := mem_leavesOfAll.mp hp
  exact all node inside p hp

end

namespace SearchTarget

variable {t : SearchTarget} {node : SearchNode}

variable [Libraries]

theorem leaf_assigned {field operand : List Char} {comparator : Comparator}
    (h : t.leaf field comparator operand = .ok node) : node.Assigned t.platform := by
  obtain ⟨type, -, h⟩ := Outcome.bind_ok.mp h
  obtain ⟨scalar, -, h⟩ := Outcome.bind_ok.mp h
  obtain ⟨value, assigned, h⟩ := Outcome.bind_ok.mp h
  cases h
  intro p hp
  cases List.mem_singleton.mp hp
  exact ⟨type.element?.getD type, scalar, assigned⟩

theorem openRange_assigned {field low high : List Char} {openLow openHigh : Bool}
    (h : t.openRange field low high openLow openHigh = .ok node) : node.Assigned t.platform := by
  obtain ⟨lower, hlower, h⟩ := Outcome.bind_ok.mp h
  obtain ⟨upper, hupper, h⟩ := Outcome.bind_ok.mp h
  cases h
  apply SearchNode.assigned_branch
  intro bound hbound
  simp only [List.mem_cons, List.not_mem_nil, or_false] at hbound
  rcases hbound with rfl | rfl
  · exact leaf_assigned hlower
  · exact leaf_assigned hupper

theorem mainframeRange_assigned {field low high : List Char} {openLow openHigh : Bool}
    (h : t.mainframeRange field low high openLow openHigh = .ok node) :
    node.Assigned t.platform := by
  obtain ⟨lower, hlower, h⟩ := Outcome.bind_ok.mp h
  obtain ⟨upper, hupper, h⟩ := Outcome.bind_ok.mp h
  have whole : ∀ excluded : List SearchNode, (∀ n ∈ excluded, n.Assigned t.platform) →
      (SearchNode.branch .range (lower :: upper :: excluded)).Assigned t.platform := by
    intro excluded all
    apply SearchNode.assigned_branch
    intro n hn
    simp only [List.mem_cons] at hn
    rcases hn with rfl | rfl | hn
    · exact leaf_assigned hlower
    · exact leaf_assigned hupper
    · exact all n hn
  have alone : ∀ {n : SearchNode}, n.Assigned t.platform →
      ∀ m ∈ [SearchNode.branch .exclusion [n]], m.Assigned t.platform := by
    intro n assigned m hm
    cases List.mem_singleton.mp hm
    apply SearchNode.assigned_branch
    intro m hm
    cases List.mem_singleton.mp hm
    exact assigned
  cases openLow <;> cases openHigh
  case false.false =>
    cases h
    exact whole [] (by simp)
  case false.true =>
    obtain ⟨last, hlast, h⟩ := Outcome.bind_ok.mp h
    cases h
    exact whole _ (alone (leaf_assigned hlast))
  case true.false =>
    obtain ⟨first, hfirst, h⟩ := Outcome.bind_ok.mp h
    cases h
    exact whole _ (alone (leaf_assigned hfirst))
  case true.true =>
    obtain ⟨first, hfirst, h⟩ := Outcome.bind_ok.mp h
    obtain ⟨last, hlast, h⟩ := Outcome.bind_ok.mp h
    cases h
    apply whole
    apply alone
    apply SearchNode.assigned_branch
    intro n hn
    simp only [List.mem_cons, List.not_mem_nil, or_false] at hn
    rcases hn with rfl | rfl
    · exact leaf_assigned hfirst
    · exact leaf_assigned hlast

theorem range_assigned {field operand : List Char} (h : t.range field operand = .ok node) :
    node.Assigned t.platform := by
  unfold range at h
  dsimp only at h
  split at h
  · exact mainframeRange_assigned h
  · exact openRange_assigned h

theorem predicate_assigned {s : List Char} (h : t.predicate s = .ok node) :
    node.Assigned t.platform := by
  obtain ⟨⟨field, comparator, operand⟩, -, h⟩ := Outcome.bind_ok.mp h
  dsimp only at h
  split at h
  · split at h
    · exact range_assigned h
    · cases h
  · exact leaf_assigned h

theorem mapM_assigned {read : List Char → Except FieldFault SearchNode}
    (each : ∀ s node, read s = .ok node → node.Assigned t.platform) {parts : List (List Char)}
    {nodes : List SearchNode} (h : parts.mapM read = .ok nodes) (logic : Logic) :
    (SearchNode.branch logic nodes).Assigned t.platform := by
  apply SearchNode.assigned_branch
  intro node hnode
  obtain ⟨s, -, same⟩ := (Outcome.mapM_ok h).1 node hnode
  exact each s node same

theorem disjunction_assigned {s : List Char} (h : t.disjunction s = .ok node) :
    node.Assigned t.platform := by
  unfold disjunction at h
  split at h
  · exact predicate_assigned h
  · exact predicate_assigned h
  · obtain ⟨nodes, read, h⟩ := Outcome.bind_ok.mp h
    cases h
    exact mapM_assigned (fun _ _ => predicate_assigned) read _

theorem conjunction_assigned {s : List Char} (h : t.conjunction s = .ok node) :
    node.Assigned t.platform := by
  unfold conjunction at h
  split at h
  · exact disjunction_assigned h
  · exact disjunction_assigned h
  · obtain ⟨nodes, read, h⟩ := Outcome.bind_ok.mp h
    cases h
    exact mapM_assigned (fun _ _ => disjunction_assigned) read _

end SearchTarget

/-- Every predicate of a compiled query is assigned; the tree is for the platform and the byte order
that were asked for. -/
theorem Query.compile_assigned [Libraries] {q : Query} {platform : Platform}
    {definition : Definition}
    {order : ByteOrder} {tree : SearchTree}
    (h : q.compile platform definition order = .ok tree) : tree.root.Assigned platform ∧
      tree.mainframe = platform.isMainframe ∧ tree.byteOrder = order := by
  obtain ⟨root, compiled, h⟩ := Outcome.bind_ok.mp h
  cases h
  exact ⟨SearchTarget.conjunction_assigned compiled, rfl, rfl⟩

end RecordCodec
