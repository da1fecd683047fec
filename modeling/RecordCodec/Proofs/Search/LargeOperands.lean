import RecordCodec.Libraries.Standard
import RecordCodec.Proofs.Definition.ChunkedStore
import RecordCodec.Proofs.Search.Alignment
import RecordCodec.Proofs.Search.Operands

/-!
Large texts as operands. The value buffer has an operand as one store call writes it, so a large
text is there with its length header and all its bytes exactly if one chunk holds it. Of a longer
one the buffer has the first chunk without a header, and no later call writes the rest.
-/
namespace RecordCodec

def wholeSegment (order : ByteOrder) (bytes : List UInt8) : List UInt8 :=
  order.encode 4 (bytes.length + 4) ++ bytes

def largeSegment (order : ByteOrder) (bytes : List UInt8) : List UInt8 :=
  if bytes.length ≤ 40960 then wholeSegment order (TextField.payload bytes) else bytes.take 40960

theorem length_wholeSegment (order : ByteOrder) (bytes : List UInt8) :
    (wholeSegment order bytes).length = bytes.length + 4 := by
  rw [wholeSegment, List.length_append, ByteOrder.length_encode, Nat.add_comm]

theorem largeSegment_whole_iff {order : ByteOrder} {bytes : List UInt8} :
    largeSegment order bytes = wholeSegment order bytes ↔
      0 < bytes.length ∧ bytes.length ≤ 40960 := by
  unfold largeSegment
  constructor
  · intro same
    have length := congrArg List.length same
    rw [length_wholeSegment] at length
    split at length
    · rename_i short
      rw [length_wholeSegment] at length
      cases bytes with
      | nil => cases length
      | cons b bytes => exact ⟨Nat.succ_pos _, short⟩
    · rw [List.length_take] at length
      omega
  · rintro ⟨given, short⟩
    rw [if_pos short]
    cases bytes with
    | nil => cases given
    | cons b bytes => rfl

namespace Leaf

/-- A first store call writes the segment of a large text, whatever it leaves for later calls. -/
theorem store_large {l : Leaf} (typed : l.Typed) (pieced : l.isPieced = true) (order : ByteOrder)
    (mainframe : Bool) : ∃ followUp,
      l.store order (Predicate.storeRequest mainframe) =
        .ok ⟨largeSegment order l.bytes, followUp⟩ := by
  have chunk : (Predicate.storeRequest mainframe).chunk = 40960 := rfl
  unfold largeSegment
  by_cases short : l.bytes.length ≤ 40960
  · rw [if_pos short, store_short typed pieced (chunk ▸ short), wholeSegment,
      ← ByteOrder.frame_variable]
    exact ⟨.none, rfl⟩
  · have long : (Predicate.storeRequest mainframe).chunk < l.bytes.length := by omega
    have first : (Predicate.storeRequest mainframe).call = 0 := rfl
    rw [if_neg short, store_long typed pieced long, TextField.storeChunk_eq, chunk, first,
      Nat.zero_mul, List.drop_zero]
    exact ⟨_, rfl⟩

end Leaf

namespace Predicate

variable {platform : Platform} {p : Predicate}

theorem Assigned.exists_large [Libraries] (assigned : p.Assigned platform)
    (lob : p.operand.type.isLob = true) (whole : p.operand.type.partialRange = none) :
    ∃ l : Leaf, p.operand = .leaf l ∧ l.Typed ∧ l.isPieced = true ∧
      l.bytes.length + 4 < Bytes.capacity 4 := by
  obtain ⟨l, operand, suited, -, -⟩ := assigned.leaf
  rw [operand] at lob whole
  have lob : l.place.type.isLob = true := lob
  have whole : l.place.type.partialRange = none := whole
  have flat : l.place.type.kind.isStructure = false := by
    cases kind : l.place.type.kind <;> first | rfl | (rw [FieldType.isLob, kind] at lob; cases lob)
  have typed : l.Typed := suited.isOf flat
  refine ⟨l, operand, typed, ?_, ?_⟩
  · rw [Leaf.isPieced, lob, whole]
    rfl
  · obtain ⟨q, unicode, c, rfl, large⟩ := Leaf.exists_lob typed lob
    cases suited with
    | text kind extent =>
      have extent := extent whole
      have varies : q.type.length = 0 := by simpa [TextField.isLob] using large
      rw [varies] at extent
      exact occupies_variable.mp extent

/-- The segment of a large operand in the value buffer, twice where the operand is written twice. -/
theorem Assigned.valueBytes_large [Libraries] (assigned : p.Assigned platform)
    (lob : p.operand.type.isLob = true) (whole : p.operand.type.partialRange = none)
    (order : ByteOrder) (mainframe : Bool) :
    p.valueBytes order mainframe =
      .ok (p.copies mainframe (largeSegment order p.operand.bytes)).flatten := by
  obtain ⟨l, operand, typed, pieced, -⟩ := assigned.exists_large lob whole
  obtain ⟨followUp, stored⟩ := Leaf.store_large typed pieced order mainframe
  have written : p.operand.store order (storeRequest mainframe) =
      .ok ⟨largeSegment order p.operand.bytes, followUp⟩ := by
    rw [operand]
    exact stored
  rw [valueBytes, written, copies]
  cases p.isDoubled mainframe <;> simp [bind, Except.bind, pure, Except.pure]

end Predicate

def valuesOf (order : ByteOrder) (mainframe : Bool) (ps : List Predicate) :
    Except FieldFault (List UInt8) :=
  (ps.mapM fun (p : Predicate) => p.valueBytes order mainframe).map List.flatten

theorem valuesOf_split {order : ByteOrder} {mainframe : Bool} {before after : List Predicate}
    {p : Predicate} {segment buffer : List UInt8}
    (written : p.valueBytes order mainframe = .ok segment)
    (whole : valuesOf order mainframe (before ++ p :: after) = .ok buffer) :
    ∃ front back, valuesOf order mainframe before = .ok front ∧
      valuesOf order mainframe after = .ok back ∧ buffer = front ++ segment ++ back := by
  obtain ⟨chunks, stored, rfl⟩ := Outcome.map_ok.mp whole
  rw [List.mapM_append] at stored
  obtain ⟨fronts, first, stored⟩ := Outcome.bind_ok.mp stored
  obtain ⟨others, rest, same⟩ := Outcome.bind_ok.mp stored
  cases same
  rw [List.mapM_cons, written] at rest
  obtain ⟨_, here, rest⟩ := Outcome.bind_ok.mp rest
  cases here
  obtain ⟨backs, last, same⟩ := Outcome.bind_ok.mp rest
  cases same
  refine ⟨fronts.flatten, backs.flatten, Outcome.map_ok.mpr ⟨_, first, rfl⟩,
    Outcome.map_ok.mpr ⟨_, last, rfl⟩, ?_⟩
  rw [List.flatten_append, List.flatten_cons, List.append_assoc]

namespace Query

/-- Large operands go out whole exactly if one chunk holds them, and what stands around them in the
value buffer is that of the other predicates. -/
theorem large_operands_emitted [Libraries] {q : Query} {platform : Platform} {d : Definition}
    {order : ByteOrder} {tree : SearchTree} (compiled : q.compile platform d order = .ok tree)
    {before after : List Predicate} {p : Predicate}
    (leaves : tree.root.leaves = before ++ p :: after) (lob : p.operand.type.isLob = true)
    (whole : p.operand.type.partialRange = none) :
    let mainframe := platform.isMainframe
    let bytes := p.operand.bytes
    bytes.length + 4 < 2 ^ 32 ∧
    p.valueBytes order mainframe = .ok (p.copies mainframe (largeSegment order bytes)).flatten ∧
    (largeSegment order bytes = wholeSegment order bytes ↔
      0 < bytes.length ∧ bytes.length ≤ 40960) ∧
    ∀ buffer, tree.valueBuffer = .ok buffer → ∃ front back,
      valuesOf order mainframe before = .ok front ∧ valuesOf order mainframe after = .ok back ∧
      buffer = front ++ (p.copies mainframe (largeSegment order bytes)).flatten ++ back := by
  intro mainframe bytes
  obtain ⟨assigned, onMainframe, inOrder⟩ := compile_assigned compiled
  have here : p.Assigned platform := assigned p (by rw [leaves]; simp)
  obtain ⟨l, operand, -, -, counted⟩ := here.exists_large lob whole
  have written := here.valueBytes_large lob whole order mainframe
  refine ⟨?_, written, largeSegment_whole_iff, fun buffer emitted => ?_⟩
  · change p.operand.bytes.length + 4 < 2 ^ 32
    rw [operand]
    exact counted
  · rw [SearchTree.valueBuffer, onMainframe, inOrder, leaves] at emitted
    exact valuesOf_split written emitted

namespace Sample

def largeField : FieldType :=
  { FieldType.ofKind (.text .large false) "LB" with length := 0 }

def smallField : FieldType :=
  { FieldType.ofKind (.text .short false) "BB" with length := 0 }

def largeDefinition (platform : Platform) : Definition where
  platform := platform
  types := [largeField, smallField]
  index := [("BB", smallField), ("LB", largeField)]
  values := [largeField.fresh platform, smallField.fresh platform]

def largeLeaf (platform : Platform) (bytes : List UInt8) : Predicate :=
  ⟨"LB", .equal, .leaf ⟨.top largeField platform, .text .large false (.whole bytes)⟩⟩

def smallLeaf (platform : Platform) : Predicate :=
  ⟨"BB", .less, .leaf ⟨.top smallField platform, .text .short false ⟨[0x37], 1⟩⟩⟩

def longText : List UInt8 :=
  List.replicate 40961 0x41

end Sample

/-- A short text is there twice on a mainframe, each time behind its header, and the next operand
behind it. -/
theorem short_text_emitted :
    let large := Sample.largeLeaf .mainframe [0x41, 0x42]
    let small := Sample.smallLeaf .mainframe
    let tree : SearchTree := ⟨.branch .conjunction [.leaf large, .leaf small], true, .big⟩
    compile ⟨"LB=AB AND BB<7".toList, []⟩ .mainframe (Sample.largeDefinition .mainframe) .big =
        .ok tree ∧
      tree.root.leaves = [] ++ large :: [small] ∧ large.operand.type.isLob = true ∧
      large.operand.type.partialRange = none ∧
      large.valueBytes .big true = .ok [0, 0, 0, 6, 0x41, 0x42, 0, 0, 0, 6, 0x41, 0x42] ∧
      tree.valueBuffer = .ok [0, 0, 0, 6, 0x41, 0x42, 0, 0, 0, 6, 0x41, 0x42, 2, 0x37] ∧
      largeSegment .big large.operand.bytes = wholeSegment .big large.operand.bytes := by
  intro large small tree
  have compiled : compile ⟨"LB=AB AND BB<7".toList, []⟩ .mainframe
      (Sample.largeDefinition .mainframe) .big = .ok tree := rfl
  have leaves : tree.root.leaves = [] ++ large :: [small] := rfl
  obtain ⟨-, written, whole, -⟩ := large_operands_emitted compiled leaves rfl rfl
  have segments : (large.copies true (largeSegment .big large.operand.bytes)).flatten =
      [0, 0, 0, 6, 0x41, 0x42, 0, 0, 0, 6, 0x41, 0x42] := by decide +kernel
  exact ⟨compiled, leaves, rfl, rfl, written.trans (congrArg Except.ok segments), rfl,
    whole.mpr ⟨by decide, by decide⟩⟩

theorem longText_read :
    Operand.ofText .big [] "0x41(40961)".toList = .ok (.bytes Sample.longText) := by
  have ran : Operand.run .big [] 0 '0' "x41(40961)".toList =
      .ok ((List.replicate 40961 [0x41]).flatten, []) := rfl
  have mixed : Operand.mixedFrom .big [] [] "0x41(40961)".toList = .ok Sample.longText := by
    change Operand.mixedFrom .big [] [] ('0' :: "x41(40961)".toList) = _
    rw [Operand.mixedFrom_cons, List.length_nil, ran, List.flatten_replicate_singleton]
    change Operand.mixedFrom .big [] Sample.longText [] = _
    rw [Operand.mixedFrom]
  have hexadecimal : Operand.ofText .big [] "0x41(40961)".toList =
      (Operand.mixed .big [] "0x41(40961)".toList).map .bytes := by
    rfl
  rw [hexadecimal, Operand.mixed, mixed]
  rfl

theorem largeField_assign [Libraries] {platform : Platform} {bytes : List UInt8}
    (short : bytes.length ≤ 4294967291) :
    (Sample.largeField.fresh platform).assignOperand (.bytes bytes) =
      .ok (Sample.largeLeaf platform bytes).operand := by
  have laid : TextField.layout (.top Sample.largeField platform) .large false bytes =
      .ok bytes := by
    change (if 4294967291 < bytes.length then _ else _) = _
    rw [if_neg (Nat.not_lt.mpr short)]
    change Except.ok (bytes ++ List.replicate (0 - bytes.length) _) = _
    rw [Nat.zero_sub, List.replicate_zero, List.append_nil]
  have assigned : TextField.assign (.top Sample.largeField platform) .large false (.bytes bytes) =
      .ok (.whole bytes) :=
    Outcome.bind_ok.mpr ⟨bytes, rfl, Outcome.bind_ok.mpr ⟨bytes, laid, rfl⟩⟩
  exact Outcome.map_ok.mpr ⟨_, Outcome.map_ok.mpr ⟨_, Outcome.map_ok.mpr ⟨_, assigned, rfl⟩, rfl⟩,
    rfl⟩

theorem largeLeaf_emitted [Libraries] {bytes : List UInt8}
    (assigned : (Sample.largeField.fresh .openSystem).assignOperand (.bytes bytes) =
      .ok (Sample.largeLeaf .openSystem bytes).operand) :
    (SearchTree.mk (.leaf (Sample.largeLeaf .openSystem bytes)) false .big).valueBuffer =
      .ok (largeSegment .big bytes) := by
  have given : (Sample.largeLeaf .openSystem bytes).Assigned .openSystem :=
    ⟨Sample.largeField, .bytes bytes, assigned⟩
  have written : (Sample.largeLeaf .openSystem bytes).valueBytes .big false =
      .ok (largeSegment .big bytes) :=
    (given.valueBytes_large rfl rfl .big false).trans
      (congrArg Except.ok (List.append_nil _))
  have listed : [Sample.largeLeaf .openSystem bytes].mapM (fun p => p.valueBytes .big false) =
      .ok [largeSegment .big bytes] := by
    rw [List.mapM_cons, written, List.mapM_nil]
    rfl
  exact Outcome.map_ok.mpr ⟨_, listed, List.append_nil _⟩

theorem long_text_cut :
    let tree : SearchTree := ⟨.leaf (Sample.largeLeaf .openSystem Sample.longText), false, .big⟩
    compile ⟨"LB=0x41(40961)".toList, []⟩ .openSystem (Sample.largeDefinition .openSystem) .big =
        .ok tree ∧
      tree.valueBuffer = .ok (List.replicate 40960 0x41) ∧
      wholeSegment .big Sample.longText =
        [0, 0, 0xA0, 5] ++ List.replicate 40961 0x41 ∧
      tree.valueBuffer ≠ .ok (wholeSegment .big Sample.longText) := by
  intro tree
  let t : SearchTarget := ⟨.openSystem, Sample.largeDefinition .openSystem, .big, []⟩
  have length : Sample.longText.length = 40961 := List.length_replicate
  have leaf : t.leaf "LB".toList .equal "0x41(40961)".toList = .ok tree.root :=
    Outcome.bind_ok.mpr ⟨Sample.largeField, rfl, Outcome.bind_ok.mpr ⟨_, longText_read,
      Outcome.bind_ok.mpr ⟨_, largeField_assign (by omega), rfl⟩⟩⟩
  have predicate : t.predicate "LB=0x41(40961)".toList = .ok tree.root := by
    have parts : predicateParts "LB=0x41(40961)".toList =
        .ok ("LB".toList, .equal, "0x41(40961)".toList) := rfl
    rw [t.predicate_of_parts parts, if_neg (by decide), leaf]
  have conjunction : t.conjunction "LB=0x41(40961)".toList = .ok tree.root := by
    have groups : split conjunctionKeyword "LB=0x41(40961)".toList = ["LB=0x41(40961)".toList] :=
      rfl
    have clauses : split disjunctionKeyword "LB=0x41(40961)".toList = ["LB=0x41(40961)".toList] :=
      rfl
    rw [SearchTarget.conjunction, groups, SearchTarget.disjunction, clauses]
    exact predicate
  have compiled : compile ⟨"LB=0x41(40961)".toList, []⟩ .openSystem
      (Sample.largeDefinition .openSystem) .big = .ok tree :=
    Outcome.bind_ok.mpr ⟨tree.root, conjunction, rfl⟩
  have cut : largeSegment .big Sample.longText = List.replicate 40960 0x41 := by
    rw [largeSegment, if_neg (by omega), Sample.longText, List.take_replicate]
    rfl
  have emitted : tree.valueBuffer = .ok (List.replicate 40960 0x41) := by
    rw [largeLeaf_emitted (largeField_assign (by omega)), cut]
  have whole : wholeSegment .big Sample.longText =
      [0, 0, 0xA0, 5] ++ List.replicate 40961 0x41 := by
    rw [wholeSegment, length]
    rfl
  refine ⟨compiled, emitted, whole, fun same => ?_⟩
  rw [emitted] at same
  have lengths := congrArg List.length (Except.ok.inj same)
  rw [length_wholeSegment, length, List.length_replicate] at lengths
  cases lengths

end Query

end RecordCodec
