import RecordCodec.Libraries.Standard
import RecordCodec.Proofs.Definition.Names
import RecordCodec.Proofs.Search.Clauses
import RecordCodec.Proofs.Text.Words

/-!
What a search needs, told from its query. The compiled tree knows its fields only by the operands of
its predicates, where an element stands for its multiple-value field and a range is written out.
While elements have the names of their fields and are descriptors just when these are, the tree
classifies a query as the definition does.
-/
namespace RecordCodec

namespace SearchTree

def keep (seen : List String) (name : String) : List String :=
  if seen.contains name then seen else seen ++ [name]

theorem keep_of_mem {seen : List String} {name : String} (known : name ∈ seen) :
    keep seen name = seen :=
  if_pos (List.contains_iff_mem.mpr known)

theorem mem_keep (seen : List String) (name : String) : name ∈ keep seen name := by
  unfold keep
  split
  · rename_i known
    exact List.contains_iff_mem.mp known
  · simp

theorem foldl_keep (seen names : List String) : names.foldl keep seen =
    seen ++ (names.filter fun name => !seen.contains name).eraseDups := by
  induction names generalizing seen with
  | nil => simp
  | cons name rest ih =>
    rw [List.foldl_cons, ih]
    by_cases known : name ∈ seen
    · rw [keep_of_mem known, List.filter_cons_of_neg (by simpa using known)]
    · have rest' : (rest.filter fun other => !(seen ++ [name]).contains other) =
          (rest.filter fun other => !seen.contains other).filter fun other => !other == name := by
        rw [List.filter_filter]
        exact List.filter_congr fun other _ => by simp [Bool.and_comm, Bool.beq_eq_decide_eq]
      rw [keep, if_neg (by simpa using known), List.filter_cons_of_pos (by simpa using known),
        List.eraseDups_cons, rest', List.append_assoc, List.singleton_append]

theorem distinct_eq (names : List String) : distinct names = names.eraseDups := by
  have all : (names.filter fun name => !([] : List String).contains name) = names := by simp
  have folded := foldl_keep [] names
  rw [all, List.nil_append] at folded
  exact folded

theorem foldl_keep_known {seen names : List String} (known : ∀ name ∈ names, name ∈ seen) :
    names.foldl keep seen = seen := by
  induction names with
  | nil => rfl
  | cons name rest ih =>
    obtain ⟨here, later⟩ := List.forall_mem_cons.mp known
    rw [List.foldl_cons, keep_of_mem here, ih later]

theorem foldl_keep_same {seen names : List String} {name : String} (some : names ≠ [])
    (same : ∀ other ∈ names, other = name) : names.foldl keep seen = keep seen name := by
  cases names with
  | nil => exact absurd rfl some
  | cons first rest =>
    obtain ⟨rfl, later⟩ := List.forall_mem_cons.mp same
    exact foldl_keep_known fun other listed => by
      rw [later other listed]
      exact mem_keep seen first

/-- Blocks of things that are all called by one name, or all by none, have the names of the things
that they stand for. -/
theorem distinct_blocks {α β : Type} {f : α → Option String} {g : β → Option String}
    {blocks : List (List α)} {bs : List β}
    (each : List.Forall₂ (fun block b => block ≠ [] ∧ ∀ a ∈ block, f a = g b) blocks bs) :
    distinct (blocks.flatten.filterMap f) = distinct (bs.filterMap g) := by
  suffices general : ∀ seen, (blocks.flatten.filterMap f).foldl keep seen =
      (bs.filterMap g).foldl keep seen from general []
  induction each with
  | nil => exact fun _ => rfl
  | @cons block b blocks bs here _ ih =>
    obtain ⟨some, same⟩ := here
    intro seen
    rw [List.flatten_cons, List.filterMap_append, List.foldl_append, List.filterMap_cons]
    cases called : g b with
    | none =>
      have none : block.filterMap f = [] :=
        List.filterMap_eq_nil_iff.mpr fun a listed => (same a listed).trans called
      rw [none, List.foldl_nil, ih]
    | some name =>
      obtain ⟨a, listed⟩ := List.exists_mem_of_ne_nil block some
      have member : name ∈ block.filterMap f :=
        List.mem_filterMap.mpr ⟨a, listed, (same a listed).trans called⟩
      have all : ∀ other ∈ block.filterMap f, other = name := by
        intro other found
        obtain ⟨a, listed, found⟩ := List.mem_filterMap.mp found
        rw [same a listed, called] at found
        exact (Option.some.inj found).symm
      rw [foldl_keep_same (List.ne_nil_of_mem member) all, ih, List.foldl_cons]

theorem length_eraseDups_eq_one {names : List String} : names.eraseDups.length = 1 ↔
    names ≠ [] ∧ ∃ name, ∀ other ∈ names, other = name := by
  have none : ∀ {rest : List String}, rest.eraseDups = [] ↔ rest = [] := by
    intro rest
    cases rest <;> simp [List.eraseDups_cons]
  cases names with
  | nil => simp
  | cons first rest =>
    rw [List.eraseDups_cons, List.length_cons, Nat.add_eq_right, List.length_eq_zero_iff, none,
      List.filter_eq_nil_iff]
    constructor
    · intro same
      refine ⟨by simp, first, List.forall_mem_cons.mpr ⟨rfl, fun other listed => ?_⟩⟩
      simpa using same other listed
    · rintro ⟨-, name, same⟩ other listed
      obtain ⟨rfl, later⟩ := List.forall_mem_cons.mp same
      simp [later other listed]

end SearchTree

/-- Whether the element of a multiple-value field stands for the field: it has its names, and is a
descriptor just when the field is one. -/
def FieldType.ComparedAlike (t : FieldType) : Prop :=
  t.compared.shortName = t.shortName ∧ t.compared.name = t.name ∧
    t.compared.isDescriptor = t.isDescriptor

/-- Every field is compared alike as it is declared; only what is said of a multiple-value field
afterwards can set it apart from its element. -/
theorem FieldType.comparedAlike_multiple {element : FieldType}
    (plain : element.kind ≠ .superDescriptor) : (multiple element).ComparedAlike := by
  refine ⟨rfl, rfl, ?_⟩
  have kept : ∀ o, o ≠ .multiple → (multiple element).hasOption o = element.hasOption o := by
    intro o other
    change List.contains (List.insert .multiple element.options) o = element.options.contains o
    rw [List.contains_insert, beq_eq_false_iff_ne.mpr other, Bool.false_or]
  have plain' : (element.kind == .superDescriptor) = false := beq_eq_false_iff_ne.mpr plain
  change (element.hasOption .descriptor || element.hasOption .unique ||
    element.kind == .superDescriptor) = ((multiple element).hasOption .descriptor ||
      (multiple element).hasOption .unique || false)
  rw [kept _ (by decide), kept _ (by decide), plain']

/-- A tree that tells of a query what its clauses on a definition say. -/
structure SearchTree.Classifies (tree : SearchTree) (mainframe : Bool) (clauses : List Clause) :
    Prop where
  needsSearch : tree.needsSearch = false ↔
    (∃ t : FieldType, t.isDescriptor = true ∧ ∀ c ∈ clauses, c.field = t) ∧
      (∀ c ∈ clauses, c.comparator ≠ .notEqual) ∧
      (mainframe = false ∨ ∀ c ∈ clauses, c.isRange = false)
  orderBy : tree.orderBy = (((clauses.map Clause.field).filter FieldType.isDescriptor).map
    FieldType.shortName).eraseDups
  fieldNames : tree.fieldNames = (clauses.map fun c => c.field.name).eraseDups

theorem forall₂_all_iff {α β : Type} {P : α → Prop} {Q : β → Prop} {as : List α} {bs : List β}
    (each : List.Forall₂ (fun a b => P a ↔ Q b) as bs) : (∀ a ∈ as, P a) ↔ ∀ b ∈ bs, Q b := by
  induction each with
  | nil => simp
  | cons here _ ih => rw [List.forall_mem_cons, List.forall_mem_cons, here, ih]

theorem forall₂_and {α β : Type} {R : α → β → Prop} {Q : β → Prop} {as : List α} {bs : List β}
    (each : List.Forall₂ R as bs) (all : ∀ b ∈ bs, Q b) :
    List.Forall₂ (fun a b => R a b ∧ Q b) as bs := by
  induction each with
  | nil => exact .nil
  | cons here _ ih =>
    obtain ⟨first, rest⟩ := List.forall_mem_cons.mp all
    exact .cons ⟨here, first⟩ (ih rest)

theorem Clause.Compiled.leaf {mainframe : Bool} {node : SearchNode} {c : Clause}
    (compiled : c.Compiled mainframe node) (alike : c.field.ComparedAlike) :
    ∀ p ∈ node.leaves, p.shortName = c.field.shortName ∧ p.operand.type.name = c.field.name ∧
      p.isDescriptor = c.field.isDescriptor := by
  intro p listed
  have type := compiled.fields p listed
  have short : p.shortName = p.operand.type.shortName := rfl
  rw [short, Predicate.isDescriptor, type]
  exact alike

theorem Clause.Compiled.walkable_iff {mainframe : Bool} {node : SearchNode} {c : Clause}
    (compiled : c.Compiled mainframe node) :
    ((∀ p ∈ node.leaves, p.comparator ≠ .notEqual) ∧
        (mainframe = false ∨ node.containsLogic .range = false)) ↔
      c.comparator ≠ .notEqual ∧ (mainframe = false ∨ c.isRange = false) := by
  rw [compiled.range]
  refine and_congr_left fun simple => ⟨fun equal unequal => ?_, fun equal p listed unequal => ?_⟩
  · obtain ⟨p, listed, unequal⟩ := compiled.unequal unequal
    exact equal p listed unequal
  · rcases compiled.unequal_of_leaf p listed unequal with same | ⟨mainframe, range⟩
    · exact equal same
    · simp [mainframe, range] at simple

namespace SearchTree

section Classifying

variable {tree : SearchTree} {nodes : List SearchNode} {clauses : List Clause}
  (gathers : tree.root.Gathers nodes)
  (become : List.Forall₂ (fun node c =>
    Clause.Compiled tree.mainframe node c ∧ c.field.ComparedAlike) nodes clauses)
include gathers become

theorem distinct_leaves {f : Predicate → Option String} {g : Clause → Option String}
    (same : ∀ node c, Clause.Compiled tree.mainframe node c → c.field.ComparedAlike →
      ∀ p ∈ node.leaves, f p = g c) :
    distinct (tree.root.leaves.filterMap f) = (clauses.filterMap g).eraseDups := by
  have blocks : List.Forall₂ (fun block c => block ≠ [] ∧ ∀ p ∈ block, f p = g c)
      (nodes.map SearchNode.leaves) clauses := by
    rw [List.forall₂_map_left_iff]
    exact become.imp fun node c ⟨compiled, alike⟩ => ⟨compiled.some, same node c compiled alike⟩
  rw [gathers.leaves, List.flatMap_def, distinct_blocks blocks, distinct_eq]

theorem orderBy_eq : tree.orderBy = (((clauses.map Clause.field).filter FieldType.isDescriptor).map
    FieldType.shortName).eraseDups := by
  have each := distinct_leaves gathers become
    (f := fun p => if p.isDescriptor then some p.shortName else none)
    (g := fun c => if c.field.isDescriptor then some c.field.shortName else none)
    fun node c compiled alike p listed => by
      obtain ⟨short, -, descriptor⟩ := compiled.leaf alike p listed
      rw [short, descriptor]
  rw [orderBy, ← List.filterMap_eq_map', List.filterMap_filter, ← List.filterMap_eq_map',
    List.filterMap_filter, List.filterMap_map]
  exact each

theorem fieldNames_eq : tree.fieldNames = (clauses.map fun c => c.field.name).eraseDups := by
  have each := distinct_leaves gathers become (f := fun p => some p.operand.type.name)
    (g := fun c => some c.field.name) fun node c compiled alike p listed =>
      congrArg some (compiled.leaf alike p listed).2.1
  rw [List.filterMap_eq_map', List.filterMap_eq_map'] at each
  exact each

theorem descriptors_iff : tree.root.leaves.all Predicate.isDescriptor = true ↔
    ∀ c ∈ clauses, c.field.isDescriptor = true := by
  rw [List.all_eq_true, gathers.leaves, List.forall_mem_flatMap]
  refine forall₂_all_iff (become.imp fun node c ⟨compiled, alike⟩ => ?_)
  have same : ∀ p ∈ node.leaves, p.isDescriptor = c.field.isDescriptor :=
    fun p listed => (compiled.leaf alike p listed).2.2
  constructor
  · intro all
    obtain ⟨p, listed⟩ := List.exists_mem_of_ne_nil _ compiled.some
    exact same p listed ▸ all p listed
  · intro descriptor p listed
    exact (same p listed).trans descriptor

theorem walkable_iff : ((tree.root.leaves.any fun p => p.comparator == .notEqual) = false ∧
      (tree.mainframe && tree.root.containsLogic .range) = false) ↔
    (∀ c ∈ clauses, c.comparator ≠ .notEqual) ∧
      (tree.mainframe = false ∨ ∀ c ∈ clauses, c.isRange = false) := by
  have each := forall₂_all_iff (become.imp fun node c become => become.1.walkable_iff)
  rw [List.any_eq_false, gathers.leaves, gathers.range, List.forall_mem_flatMap]
  cases mainframe : tree.mainframe with
  | false => simpa [mainframe] using each
  | true =>
    simpa [mainframe, imp_and, forall_and] using each

/-- The descriptors of a search are one field just when all clauses are on one descriptor; the short
names tell the fields of a definition apart. -/
theorem single_iff {d : Definition} (indexed : d.Indexed) (some : clauses ≠ [])
    (known : ∀ c ∈ clauses, c.field ∈ FieldType.fieldsOfAll d.types) :
    (tree.orderBy.length = 1 ∧ tree.root.leaves.all Predicate.isDescriptor = true) ↔
      ∃ t : FieldType, t.isDescriptor = true ∧ ∀ c ∈ clauses, c.field = t := by
  rw [orderBy_eq gathers become, descriptors_iff gathers become,
    length_eraseDups_eq_one]
  have among : ∀ c ∈ clauses, c.field.isDescriptor = true → c.field.shortName ∈
      ((clauses.map Clause.field).filter FieldType.isDescriptor).map FieldType.shortName :=
    fun c listed descriptor => List.mem_map_of_mem
      (List.mem_filter.mpr ⟨List.mem_map_of_mem listed, descriptor⟩)
  obtain ⟨first, listed⟩ := List.exists_mem_of_ne_nil _ some
  constructor
  · rintro ⟨⟨-, name, same⟩, descriptors⟩
    have called : ∀ c ∈ clauses, c.field.shortName = name := fun c listed =>
      same _ (among c listed (descriptors c listed))
    exact ⟨first.field, descriptors first listed, fun c listed' =>
      d.eq_of_shortName indexed (known c listed') (known first listed)
        ((called c listed').trans (called first listed).symm)⟩
  · rintro ⟨t, descriptor, same⟩
    have descriptors : ∀ c ∈ clauses, c.field.isDescriptor = true := fun c listed =>
      same c listed ▸ descriptor
    refine ⟨⟨List.ne_nil_of_mem (among first listed (descriptors first listed)), t.shortName, ?_⟩,
      descriptors⟩
    intro name found
    obtain ⟨field, kept, rfl⟩ := List.mem_map.mp found
    obtain ⟨c, listed', rfl⟩ := List.mem_map.mp (List.mem_filter.mp kept).1
    rw [same c listed']

end Classifying

end SearchTree

namespace Query

section Clauses

variable {d : Definition} {q : Query} {clauses : List Clause} (read : q.clauses d = .ok clauses)
include read

theorem clauses_ne_nil : clauses ≠ [] := by
  intro none
  have count := Outcome.length_of_mapM read
  rw [none, List.length_nil, eq_comm, List.length_eq_zero_iff] at count
  exact predicateTexts_ne_nil _ count

theorem mem_of_clauses (indexed : d.Indexed) :
    ∀ c ∈ clauses, c.field ∈ FieldType.fieldsOfAll d.types := by
  intro c listed
  obtain ⟨s, -, h⟩ := (Outcome.mapM_ok read).1 c listed
  obtain ⟨⟨name, comparator, operand⟩, -, h⟩ := Outcome.bind_ok.mp h
  obtain ⟨field, found, h⟩ := Outcome.bind_ok.mp h
  cases h
  exact d.mem_of_field indexed found

end Clauses

end Query

/-- Whatever query compiles against a definition: where the fields that it refers to are compared
alike, the tree classifies it as the definition does. -/
theorem tree_classifies [Libraries] {d : Definition} (reached : d.Reached) {s : List Char}
    {q : Query}
    (read : Query.ofText s = .ok q) {platform : Platform} {order : ByteOrder} {tree : SearchTree}
    (compiled : q.compile platform d order = .ok tree) :
    ∃ clauses, q.clauses d = .ok clauses ∧
      ((∀ c ∈ clauses, c.field.ComparedAlike) → tree.Classifies platform.isMainframe clauses) := by
  obtain ⟨⟨search, constants⟩, -, rfl⟩ := Outcome.map_ok.mp read
  obtain ⟨clauses, nodes, meant, gathers, become, mainframe⟩ :=
    Query.compile_clauses (Text.trim_collapse search) compiled
  refine ⟨clauses, meant, fun alike => ?_⟩
  rw [← mainframe] at become ⊢
  have become := forall₂_and become alike
  refine ⟨?_, SearchTree.orderBy_eq gathers become, SearchTree.fieldNames_eq gathers become⟩
  rw [← SearchTree.single_iff gathers become reached.indexed
    (Query.clauses_ne_nil meant) (Query.mem_of_clauses meant reached.indexed),
    ← SearchTree.walkable_iff gathers become]
  simp [SearchTree.needsSearch, and_assoc]

def colours : FieldType :=
  .multiple { FieldType.ofKind (.text .short false) "MA" with
    name := "Colours", length := 4, options := [.descriptor] }

def coloursDefinition : Definition where
  platform := .openSystem
  types := [colours]
  index := [("Colours", colours), ("MA", colours)]
  values := [colours.fresh .openSystem]

def coloursQuery : Query where
  search := "Colours=[#\x7b1\x7d:#\x7b2\x7d) or MA=#\x7b3\x7d".toList
  constants := [['A'], ['C'], ['X']]

theorem colours_walked : ∃ tree,
    Definition.ofTypes .openSystem [colours] = .ok coloursDefinition ∧
      Query.ofText "Colours=['A':'C') or MA='X'".toList = .ok coloursQuery ∧
      coloursQuery.compile .openSystem coloursDefinition .big = .ok tree ∧
      coloursQuery.clauses coloursDefinition =
        .ok [⟨colours, .equal, true⟩, ⟨colours, .equal, false⟩] ∧
      colours.ComparedAlike ∧ tree.needsSearch = false ∧ tree.orderBy = ["MA"] ∧
      tree.fieldNames = ["Colours"] := by
  have defined : Definition.ofTypes .openSystem [colours] = .ok coloursDefinition := rfl
  have read : Query.ofText "Colours=['A':'C') or MA='X'".toList = .ok coloursQuery := rfl
  obtain ⟨tree, compiled⟩ :
      ∃ tree, coloursQuery.compile .openSystem coloursDefinition .big = .ok tree := ⟨_, rfl⟩
  have meant : coloursQuery.clauses coloursDefinition =
      .ok [⟨colours, .equal, true⟩, ⟨colours, .equal, false⟩] := rfl
  have alike : colours.ComparedAlike := FieldType.comparedAlike_multiple (by decide)
  obtain ⟨clauses, meant', classifies⟩ := tree_classifies (.new defined) read compiled
  rw [meant] at meant'
  cases meant'
  obtain ⟨needs, order, fields⟩ := classifies (by simp [alike])
  have walked : tree.needsSearch = false :=
    needs.mpr ⟨⟨colours, by decide, by simp⟩, by simp, .inl rfl⟩
  exact ⟨tree, defined, read, compiled, meant, alike, walked, order.trans (by decide),
    fields.trans (by decide)⟩

def plainElement : FieldType :=
  { FieldType.ofKind (.text .short false) "MA" with length := 4 }

def describedLater : FieldType :=
  { FieldType.multiple plainElement with name := "Colours", options := [.multiple, .descriptor] }

def describedDefinition : Definition where
  platform := .openSystem
  types := [describedLater]
  index := [("Colours", describedLater), ("MA", describedLater)]
  values := [describedLater.fresh .openSystem]

def describedTree : SearchTree where
  root := .leaf ⟨"MA", .equal,
    .leaf ⟨.top (plainElement.withFlag .multipleElement) .openSystem,
      .text .short false ⟨[0x41, 0x42, 0x20, 0x20], 4⟩⟩⟩
  mainframe := false
  byteOrder := .big

/-- The element stands for the field also where only the field is a descriptor with a long name, so
the search does without both. -/
theorem element_hides_descriptor :
    Definition.ofTypes .openSystem [describedLater] = .ok describedDefinition ∧
      Query.ofText "MA='AB'".toList = .ok ⟨"MA=#\x7b1\x7d".toList, [['A', 'B']]⟩ ∧
      Query.compile ⟨"MA=#\x7b1\x7d".toList, [['A', 'B']]⟩ .openSystem describedDefinition .big =
        .ok describedTree ∧
      Query.clauses describedDefinition ⟨"MA=#\x7b1\x7d".toList, [['A', 'B']]⟩ =
        .ok [⟨describedLater, .equal, false⟩] ∧
      describedLater.isDescriptor = true ∧ describedLater.name = "Colours" ∧
      describedTree.needsSearch = true ∧ describedTree.orderBy = [] ∧
      describedTree.fieldNames = ["MA"] ∧
      ¬describedTree.Classifies false [⟨describedLater, .equal, false⟩] := by
  have order : describedTree.orderBy = [] := by decide
  refine ⟨rfl, rfl, rfl, rfl, by decide, rfl, by decide, order, by decide, fun classifies => ?_⟩
  have expected := classifies.orderBy
  rw [order] at expected
  revert expected
  decide

end RecordCodec
