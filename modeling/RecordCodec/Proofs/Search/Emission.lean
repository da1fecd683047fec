import RecordCodec.Proofs.Search.Alignment
import RecordCodec.Proofs.Search.Compilation
import RecordCodec.Proofs.Search.Marks

/-!
What the parts of a query emit: texts of the search buffer and bytes of the value buffer. Each
predicate emits what it does alone; a query emits that of its predicates in their order, with one
separator between neighbours in a group and another between groups.
-/
namespace RecordCodec

/-- Parts of the search buffer, and the bytes of the value buffer that go with them. -/
structure SearchEmission where
  texts : List String
  bytes : Except FieldFault (List UInt8)

/-- What a predicate emits, and the short name of its field. -/
structure PredicateEmission extends SearchEmission where
  field : String

namespace SearchEmission

def join (separator : String) (es : List SearchEmission) : SearchEmission :=
  ⟨List.intercalate [separator] (es.map texts), (es.mapM bytes).map List.flatten⟩

def ofGroup (es : List PredicateEmission) : SearchEmission :=
  join (if es.all fun e => es.all fun e' => e.field == e'.field then "O" else "R")
    (es.map PredicateEmission.toSearchEmission)

def ofGroups (groups : List (List PredicateEmission)) : SearchEmission :=
  join "D" (groups.map ofGroup)

theorem join_singleton (separator : String) (e : SearchEmission) : join separator [e] = e := by
  obtain ⟨texts, bytes⟩ := e
  have written : ([bytes].mapM id).map List.flatten = bytes := by
    cases bytes with
    | error fault => rfl
    | ok bytes => exact congrArg Except.ok (List.append_nil bytes)
  have listed : List.intercalate [separator] [texts] = texts := List.append_nil texts
  exact congr (congrArg SearchEmission.mk listed) written

end SearchEmission

namespace SearchNode

def values (order : ByteOrder) (mainframe : Bool) (node : SearchNode) :
    Except FieldFault (List UInt8) :=
  (node.leaves.mapM fun (p : Predicate) => p.valueBytes order mainframe).map List.flatten

def joinedBy (logic : Logic) : List SearchNode → SearchNode
  | [node] => node
  | nodes => .branch logic nodes

section Emits

variable {order : ByteOrder} {mainframe : Bool}

theorem values_branch (logic : Logic) (nodes : List SearchNode) :
    (branch logic nodes).values order mainframe =
      (nodes.mapM (values order mainframe)).map List.flatten := by
  rw [values, leaves, leavesOfAll_eq]
  exact Outcome.mapM_flatMap leaves _ nodes

variable (order mainframe) in
/-- What a node emits, as a part of whatever stands around it. -/
structure Emits (node : SearchNode) (e : SearchEmission) : Prop where
  texts : node.searchTexts mainframe = e.texts
  bytes : node.values order mainframe = e.bytes
  joiner : ∀ logic, node.joiner logic = logic.separator

theorem joinedTexts_eq {logic : Logic} {nodes : List SearchNode} {es : List SearchEmission}
    (all : List.Forall₂ (Emits order mainframe) nodes es) :
    joinedTexts mainframe logic nodes =
      (es.map SearchEmission.texts).flatMap fun texts => logic.separator :: texts := by
  induction all with
  | nil => rfl
  | cons here _ ih =>
    rw [joinedTexts, here.joiner, here.texts, ih]
    rfl

theorem intercalate_cons {α : Type} (separator first : List α) (rest : List (List α)) :
    List.intercalate separator (first :: rest) = first ++ rest.flatMap (separator ++ ·) := by
  induction rest generalizing first with
  | nil => simp [List.intercalate]
  | cons next rest ih =>
    rw [List.intercalate_cons_cons, ih, List.flatMap_cons, List.append_assoc, List.append_assoc]

theorem emits_joinedBy (logic : Logic) (plain : logic ≠ .exclusion) {nodes : List SearchNode}
    {es : List SearchEmission} (all : List.Forall₂ (Emits order mainframe) nodes es) :
    (joinedBy logic nodes).Emits order mainframe (.join logic.separator es) := by
  have bytes : nodes.mapM (values order mainframe) = es.mapM SearchEmission.bytes := by
    induction all with
    | nil => rfl
    | cons here _ ih => rw [List.mapM_cons, List.mapM_cons, here.bytes, ih]
  have branches : (branch logic nodes).Emits order mainframe (.join logic.separator es) := by
    refine ⟨?_, ?_, fun parent => ?_⟩
    · cases all with
      | nil => rfl
      | cons here later =>
        rw [searchTexts, here.texts, joinedTexts_eq later, SearchEmission.join, List.map_cons,
          intercalate_cons]
        rfl
    · rw [values_branch, bytes]
      rfl
    · cases logic <;> first | rfl | exact absurd rfl plain
  cases all with
  | nil => exact branches
  | cons here later =>
    cases later with
    | nil =>
      rw [SearchEmission.join_singleton]
      exact here
    | cons => exact branches

end Emits

def IsOn (node : SearchNode) (field : String) : Prop :=
  node.leaves ≠ [] ∧ ∀ p ∈ node.leaves, p.shortName = field

def emission (order : ByteOrder) (mainframe : Bool) (node : SearchNode) : PredicateEmission where
  texts := node.searchTexts mainframe
  bytes := node.values order mainframe
  field := (node.leaves.head?.map Predicate.shortName).getD ""

theorem IsOn.emission {node : SearchNode} {field : String} (on : node.IsOn field)
    (order : ByteOrder) (mainframe : Bool) : (node.emission order mainframe).field = field := by
  obtain ⟨p, rest, leaves⟩ := List.exists_cons_of_ne_nil on.1
  rw [SearchNode.emission, leaves]
  exact on.2 p (leaves ▸ List.mem_cons_self ..)

end SearchNode

namespace SearchTarget

open Query SearchNode

variable {t : SearchTarget}

theorem joined_of_parts {parts : List (List Char)} (several : ∀ part, parts ≠ [part])
    {read : List Char → Except FieldFault SearchNode} {nodes : List SearchNode}
    (each : parts.mapM read = .ok nodes) (logic : Logic) :
    joinedBy logic nodes = .branch logic nodes := by
  have count := Outcome.length_of_mapM each
  unfold joinedBy
  split
  · obtain ⟨part, single⟩ := List.length_eq_one_iff.mp count.symm
    exact absurd single (several part)
  · rfl

section

variable [Libraries]

theorem disjunction_joined {s : List Char} {nodes : List SearchNode}
    (each : (split disjunctionKeyword s).mapM t.predicate = .ok nodes) :
    t.disjunction s =
      .ok (joinedBy (if onOneField nodes then .sameField else .disjunction) nodes) := by
  unfold disjunction
  split
  · rename_i none
    exact absurd none (split_ne_nil _ _)
  · rename_i whole single
    rw [single, split_whole single, List.mapM_cons] at each
    obtain ⟨node, here, each⟩ := Outcome.bind_ok.mp each
    cases each
    exact here
  · rename_i several
    rw [each, joined_of_parts several each]
    rfl

theorem conjunction_joined {s : List Char} (trimmed : Text.trim s = s) {nodes : List SearchNode}
    (each : (split conjunctionKeyword s).mapM t.disjunction = .ok nodes) :
    t.conjunction s = .ok (joinedBy .conjunction nodes) := by
  unfold conjunction
  split
  · rename_i none
    exact absurd none (split_ne_nil _ _)
  · rename_i whole single
    rw [single, split_whole single, trimmed, List.mapM_cons] at each
    obtain ⟨node, here, each⟩ := Outcome.bind_ok.mp each
    cases each
    exact here
  · rename_i several
    rw [each, joined_of_parts several each]
    rfl

def emission (t : SearchTarget) (s : List Char) : Except FieldFault PredicateEmission :=
  (t.predicate s).map (SearchNode.emission t.byteOrder t.platform.isMainframe)

theorem leaf_shape {name operand : List Char} {comparator : Comparator} {node : SearchNode}
    (h : t.leaf name comparator operand = .ok node) : ∃ p, node = .leaf p := by
  obtain ⟨field, -, h⟩ := Outcome.bind_ok.mp h
  obtain ⟨scalar, -, h⟩ := Outcome.bind_ok.mp h
  obtain ⟨value, -, h⟩ := Outcome.bind_ok.mp h
  cases h
  exact ⟨_, rfl⟩

theorem range_shape {name operand : List Char} {node : SearchNode}
    (h : t.range name operand = .ok node) : ∃ nodes, node = .branch .range nodes := by
  unfold range at h
  dsimp only at h
  split at h
  · obtain ⟨lower, -, h⟩ := Outcome.bind_ok.mp h
    obtain ⟨upper, -, h⟩ := Outcome.bind_ok.mp h
    dsimp only at h
    split at h
    · obtain ⟨first, -, h⟩ := Outcome.bind_ok.mp h
      obtain ⟨last, -, h⟩ := Outcome.bind_ok.mp h
      cases h
      exact ⟨_, rfl⟩
    · obtain ⟨first, -, h⟩ := Outcome.bind_ok.mp h
      cases h
      exact ⟨_, rfl⟩
    · obtain ⟨last, -, h⟩ := Outcome.bind_ok.mp h
      cases h
      exact ⟨_, rfl⟩
    · cases h
      exact ⟨_, rfl⟩
  · obtain ⟨lower, -, h⟩ := Outcome.bind_ok.mp h
    obtain ⟨upper, -, h⟩ := Outcome.bind_ok.mp h
    cases h
    exact ⟨_, rfl⟩

/-- A predicate becomes a comparison or a range, which stands behind the separator of its parent. -/
theorem joiner_predicate {s : List Char} {node : SearchNode} (h : t.predicate s = .ok node)
    (logic : Logic) : node.joiner logic = logic.separator := by
  obtain ⟨⟨name, comparator, operand⟩, -, h⟩ := Outcome.bind_ok.mp h
  dsimp only at h
  split at h
  · obtain ⟨-, h⟩ := Outcome.when_ok.mp h
    obtain ⟨nodes, rfl⟩ := range_shape h
    rfl
  · obtain ⟨p, rfl⟩ := leaf_shape h
    rfl

theorem node_of_emission {s : List Char} {e : PredicateEmission} (h : t.emission s = .ok e) :
    ∃ node, t.predicate s = .ok node ∧ node.IsOn e.field ∧
      node.Emits t.byteOrder t.platform.isMainframe e.toSearchEmission := by
  obtain ⟨node, read, rfl⟩ := Outcome.map_ok.mp h
  obtain ⟨clause, -, compiled⟩ := predicate_compiled read
  have on : node.IsOn clause.field.compared.shortName := by
    refine ⟨compiled.some, fun p listed => ?_⟩
    rw [← compiled.fields p listed]
    rfl
  refine ⟨node, read, ?_, rfl, rfl, joiner_predicate read⟩
  rw [on.emission]
  exact on

end

theorem onOneField_eq {nodes : List SearchNode} {es : List PredicateEmission} (given : nodes ≠ [])
    (fields : List.Forall₂ (fun node e => node.IsOn (PredicateEmission.field e)) nodes es) :
    onOneField nodes = es.all fun e => es.all fun e' => e.field == e'.field := by
  -- The compiler compares all leaves with the first one, the emissions are compared pairwise.
  have names : ∀ name : String, (∀ p ∈ leavesOfAll nodes, p.shortName = name) ↔
      ∀ e ∈ es, e.field = name := by
    intro name
    clear given
    induction fields with
    | nil => simp [leavesOfAll]
    | @cons node e nodes es here _ ih =>
      obtain ⟨p, listed⟩ := List.exists_mem_of_ne_nil _ here.1
      rw [leavesOfAll, List.forall_mem_append, List.forall_mem_cons, ih]
      refine and_congr_left fun _ => ⟨fun same => ?_, fun same q inside => ?_⟩
      · rw [← here.2 p listed, same p listed]
      · rw [here.2 q inside, same]
  cases fields with
  | nil => exact absurd rfl given
  | @cons node e nodes es here later =>
    obtain ⟨p, listed⟩ := List.exists_mem_of_ne_nil _ here.1
    have first : ∃ leaf ∈ leavesOfAll (node :: nodes), leaf.shortName = e.field :=
      ⟨p, List.mem_append_left _ listed, here.2 p listed⟩
    rw [Bool.eq_iff_iff, Written.onOneField_iff e.field first, names]
    simp only [List.all_eq_true, beq_iff_eq]
    constructor
    · intro same a ha b hb
      rw [same a ha, same b hb]
    · intro same a ha
      exact same a ha e (List.mem_cons_self ..)

theorem disjunction_emits [Libraries] {s : List Char} {es : List PredicateEmission}
    (each : List.Forall₂ (fun s e => t.emission s = .ok e) (split disjunctionKeyword s) es) :
    ∃ node, t.disjunction s = .ok node ∧
      node.Emits t.byteOrder t.platform.isMainframe (.ofGroup es) := by
  obtain ⟨nodes, read, all⟩ := Outcome.mapM_of_forall₂
    (each.imp fun _ _ emitted => node_of_emission emitted)
  have given : nodes ≠ [] := by
    rintro rfl
    have count := Outcome.length_of_mapM read
    exact split_ne_nil _ _ (List.length_eq_zero_iff.mp count.symm)
  have emits : List.Forall₂ (SearchNode.Emits t.byteOrder t.platform.isMainframe) nodes
      (es.map PredicateEmission.toSearchEmission) :=
    List.forall₂_map_right_iff.mpr (all.imp fun _ _ both => both.2)
  refine ⟨_, disjunction_joined read, ?_⟩
  rw [onOneField_eq given (all.imp fun _ _ both => both.1), SearchEmission.ofGroup]
  split
  · exact emits_joinedBy .sameField (by decide) emits
  · exact emits_joinedBy .disjunction (by decide) emits

theorem conjunction_emits [Libraries] {s : List Char} (trimmed : Text.trim s = s)
    {groups : List (List PredicateEmission)}
    (each : List.Forall₂ (List.Forall₂ fun s e => t.emission s = .ok e)
      ((split conjunctionKeyword s).map (split disjunctionKeyword)) groups) :
    ∃ node, t.conjunction s = .ok node ∧
      node.Emits t.byteOrder t.platform.isMainframe (.ofGroups groups) := by
  rw [List.forall₂_map_left_iff] at each
  obtain ⟨nodes, read, all⟩ := Outcome.mapM_of_forall₂
    (R := fun node es => SearchNode.Emits t.byteOrder t.platform.isMainframe node (.ofGroup es))
    (each.imp fun _ _ emitted => disjunction_emits emitted)
  exact ⟨_, conjunction_joined trimmed read,
    emits_joinedBy .conjunction (by decide) (List.forall₂_map_right_iff.mpr all)⟩

end SearchTarget

/-- A query whose predicates each compile does, and both of its buffers are made of what they
emit. -/
theorem Query.compile_emits [Libraries] {s : List Char} {q : Query} (read : ofText s = .ok q)
    {platform : Platform} {d : Definition} {order : ByteOrder}
    {groups : List (List PredicateEmission)}
    (each : List.Forall₂ (List.Forall₂ fun row e =>
      SearchTarget.emission ⟨platform, d, order, q.constants⟩ (Mark.place row) = .ok e)
      (groupMarks s) groups) :
    ∃ tree, q.compile platform d order = .ok tree ∧
      tree.searchBuffer = ",".intercalate (SearchEmission.ofGroups groups).texts ++ "." ∧
      tree.valueBuffer = (SearchEmission.ofGroups groups).bytes := by
  have trimmed : Text.trim q.search = q.search := by
    obtain ⟨search, collapsed, -⟩ := marked_of_read read
    rw [collapsed]
    exact Text.trim_collapse search
  have texts : List.Forall₂ (List.Forall₂ fun s e =>
      SearchTarget.emission ⟨platform, d, order, q.constants⟩ s = .ok e)
      ((split conjunctionKeyword q.search).map (split disjunctionKeyword)) groups := by
    rw [groupTexts_marks read]
    exact List.forall₂_map_left_iff.mpr
      (each.imp fun _ _ rows => List.forall₂_map_left_iff.mpr rows)
  obtain ⟨node, compiled, emits⟩ := SearchTarget.conjunction_emits trimmed texts
  refine ⟨⟨node, platform.isMainframe, order⟩, ?_, ?_, emits.bytes⟩
  · rw [compile, compiled]
    rfl
  · rw [SearchTree.searchBuffer, Token.appendTexts_empty _ (node.closed_searchTexts _)]
    exact congrArg (fun texts => ",".intercalate texts ++ ".") emits.texts

end RecordCodec
