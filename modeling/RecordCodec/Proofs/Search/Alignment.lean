import RecordCodec.Libraries.Standard
import RecordCodec.Proofs.Request
import RecordCodec.Proofs.Search.Leaves
import RecordCodec.Proofs.Value.Transfer

/-!
Search buffer and value buffer side by side. Two traversals write them; one list of segments, each a
field and its operand, accounts for both.
-/
namespace RecordCodec

/-- Fields whose operands are as long as declared, or tell their length by one header. -/
structure FieldType.Measured (t : FieldType) : Prop where
  whole : t.partialRange = none
  small : t.isLob = false
  natural : ∀ width signed, t.kind = .binary width signed → t.length = width.bytes
  naturalFloat : ∀ wide, t.kind = .float wide → t.length = FloatField.width wide
  fixedPacked : ∀ content, t.kind = .packed content → t.length ≠ 0
  fixedUnpacked : t.kind = .unpacked → t.length ≠ 0

/-- A field of a search buffer and its operand in the value buffer. -/
structure Segment where
  name : String
  length : Nat
  format : Char
  bytes : List UInt8

namespace Segment

def token (s : Segment) : String :=
  s!"{s.name},{s.length},{s.format}"

/-- The bytes are as many as the token says, or begin with a header that tells how many there are.
Only an operand of a super-descriptor can have none. -/
def Delimited (order : ByteOrder) (kind : FieldKind) (s : Segment) : Prop :=
  if s.length ≠ 0 ∨ kind = .superDescriptor then s.bytes.length = s.length
  else ∃ payload, payload.length + kind.lengthHeader < Bytes.capacity kind.lengthHeader ∧
    s.bytes = order.encode kind.lengthHeader (payload.length + kind.lengthHeader) ++ payload

theorem delimited_fixed {order : ByteOrder} {kind : FieldKind} {s : Segment}
    (fixed : s.length ≠ 0) (exact : s.bytes.length = s.length) : s.Delimited order kind := by
  rw [Delimited, if_pos (.inl fixed)]
  exact exact

theorem delimited_frame {order : ByteOrder} {kind : FieldKind} {header length : Nat}
    {payload : List UInt8} (extent : Occupies header length payload.length)
    (data : kind ≠ .superDescriptor) (counted : kind.lengthHeader = header) (name : String)
    (format : Char) :
    Delimited order kind ⟨name, length, format, order.frame header length payload⟩ := by
  by_cases fixed : length = 0
  · subst fixed
    rw [Delimited, if_neg (by simp [data]), ByteOrder.frame_variable, counted]
    exact ⟨payload, occupies_variable.mp extent, rfl⟩
  · apply delimited_fixed fixed
    rw [ByteOrder.frame_fixed fixed]
    exact (occupies_fixed fixed).mp extent

end Segment

namespace Predicate

/-- A segment stands for a predicate: the name and the format of the field, its length (that of the
operand for a super-descriptor), and the bytes that a store of the operand writes. -/
structure Writes (order : ByteOrder) (mainframe : Bool) (p : Predicate) (s : Segment) : Prop where
  name : s.name = p.shortName
  length : s.length = if p.operand.type.kind = .superDescriptor then p.operand.bytes.length
    else p.operand.type.length
  format : s.format = p.operand.type.formatChar
  bytes : p.operand.store order (storeRequest mainframe) = .ok (.whole s.bytes)
  delimited : s.Delimited order p.operand.type.kind

def copies {α : Type} (mainframe : Bool) (p : Predicate) (a : α) : List α :=
  if p.isDoubled mainframe then [a, a] else [a]

theorem mem_copies {α : Type} {mainframe : Bool} {p : Predicate} {a b : α} :
    b ∈ p.copies mainframe a ↔ b = a := by
  unfold copies
  split <;> simp

theorem map_copies {α β : Type} (f : α → β) (mainframe : Bool) (p : Predicate) (a : α) :
    (p.copies mainframe a).map f = p.copies mainframe (f a) := by
  unfold copies
  split <;> rfl

end Predicate

theorem Leaf.store_delimited {l : Leaf} (suited : l.Suited) (measured : l.place.type.Measured)
    (data : l.place.type.kind ≠ .superDescriptor) (given : l.content ≠ .pseudo) (order : ByteOrder)
    {r : Request} (first : r.isFollowUp = false) :
    ∃ bytes, l.store order r = .ok (.whole bytes) ∧ ∀ name format,
      Segment.Delimited order l.place.type.kind ⟨name, l.place.type.length, format, bytes⟩ := by
  obtain ⟨p, content⟩ := l
  cases suited with
  | @integer width signed v kind =>
    have length : p.type.length = width.bytes := measured.natural width signed kind
    have wide : width.bytes ≠ 0 := by cases width <;> decide
    refine ⟨IntegerField.encode order width v, by simp [store, first], fun name format => ?_⟩
    apply Segment.delimited_fixed (length ▸ wide)
    simp [length, IntegerField.encode]
  | @float wide bits kind =>
    have length : p.type.length = FloatField.width wide := measured.naturalFloat wide kind
    have given : FloatField.width wide ≠ 0 := by cases wide <;> decide
    refine ⟨FloatField.encode order wide bits, by simp [store, first], fun name format => ?_⟩
    apply Segment.delimited_fixed (length ▸ given)
    simp [length, FloatField.encode]
  | @octets bytes kind extent =>
    refine ⟨order.frame 1 p.type.length bytes, ?_, fun name format => ?_⟩
    · simp [store, first, storeShort_eq p bytes order]
    · exact Segment.delimited_frame extent data (by rw [kind]; rfl) name format
  | @packed content bytes kind extent =>
    have fixed := measured.fixedPacked content kind
    refine ⟨bytes, ?_, fun name format => Segment.delimited_fixed fixed (extent fixed)⟩
    simp [store, first, storeDecimal_fixed fixed]
  | @unpacked bytes kind extent =>
    have fixed := measured.fixedUnpacked kind
    refine ⟨bytes, ?_, fun name format => Segment.delimited_fixed fixed (extent fixed)⟩
    simp [store, first, storeDecimal_fixed fixed]
  | @text size unicode c kind extent =>
    have whole : p.type.partialRange = none := measured.whole
    have small := (TextField.isLob_of_kind kind).trans measured.small
    have extent := TextField.occupies_payload (extent whole)
    refine ⟨order.frame size.header p.type.length (TextField.payload c.bytes), ?_,
      fun name format => ?_⟩
    · simp [store, TextField.store, whole, small, first, TextField.storeWhole_eq]
    · exact Segment.delimited_frame extent data (by rw [kind]; rfl) name format
  | superDescriptor kind => exact absurd kind data
  | pseudo kind => exact absurd rfl given

/-- The length of a field in a search buffer: the declared one, but that of the operand for a
super-descriptor. -/
def FieldType.searchLength (field : FieldType) (operand : List UInt8) : Nat :=
  if field.kind = .superDescriptor then operand.length else field.length

def FieldType.searchToken (field : FieldType) (operand : List UInt8) : String :=
  s!"{field.shortName},{field.searchLength operand},{field.formatChar}"

theorem Leaf.searchTokenText_eq {l : Leaf} (suited : l.Suited) (outside : l.place.indexText = "") :
    l.searchTokenText = l.place.type.searchToken l.bytes := by
  obtain ⟨place, content⟩ := l
  by_cases derived : place.type.kind = .superDescriptor
  · rw [FieldType.searchToken, FieldType.searchLength, if_pos derived]
    cases suited with
    | superDescriptor kind => rfl
    | integer kind | octets kind | float kind | packed kind | unpacked kind | text kind
    | pseudo kind => simp [derived, FieldKind.isPseudo, FieldKind.isStructure] at kind
  · have plain : (Leaf.mk place content).searchTokenText = place.tokenText := by
      cases suited with
      | superDescriptor kind => exact absurd kind derived
      | integer | octets | float | packed | unpacked | text | pseudo => rfl
    have here : place.indexText = "" := outside
    rw [plain, Place.tokenText, here, FieldType.searchToken, FieldType.searchLength, if_neg derived]
    simp [toString, Place.shortName]

/-- An assigned predicate on a measured field has a segment, and the field is written as its
token. -/
theorem Predicate.Assigned.segment [Libraries] {platform : Platform} {p : Predicate}
    (assigned : p.Assigned platform) (measured : p.operand.type.Measured) (order : ByteOrder)
    (mainframe : Bool) : ∃ s, p.Writes order mainframe s ∧ p.fieldText = s.token := by
  obtain ⟨name, comparator, operand⟩ := p
  obtain ⟨l, rfl, suited, given, outside⟩ := assigned.leaf
  have token : (Predicate.mk name comparator (.leaf l)).fieldText =
      l.place.type.searchToken l.bytes := l.searchTokenText_eq suited outside
  rw [FieldType.searchToken, FieldType.searchLength] at token
  obtain ⟨place, content⟩ := l
  by_cases derived : place.type.kind = .superDescriptor
  · rw [if_pos derived] at token
    cases suited with
    | @superDescriptor bytes kind =>
      refine ⟨⟨place.shortName, bytes.length, place.type.formatChar, bytes⟩, ?_, token⟩
      refine ⟨rfl, (if_pos derived).symm, rfl, rfl, ?_⟩
      exact (if_pos (.inr derived)).mpr rfl
    | integer kind | octets kind | float kind | packed kind | unpacked kind | text kind
    | pseudo kind => simp [derived, FieldKind.isPseudo, FieldKind.isStructure] at kind
  · rw [if_neg derived] at token
    obtain ⟨bytes, stored, delimited⟩ := Leaf.store_delimited suited measured derived given order
      (r := storeRequest mainframe) rfl
    refine ⟨⟨place.shortName, place.type.length, place.type.formatChar, bytes⟩, ?_, token⟩
    exact ⟨rfl, (if_neg derived).symm, rfl, stored, delimited ..⟩

def searchMarks : List String :=
  [Comparator.equal, .notEqual, .less, .lessOrEqual, .greater, .greaterOrEqual].map
      Comparator.token ++
    [Logic.conjunction, .disjunction, .sameField, .range, .exclusion].map Logic.separator

def isFieldText (text : String) : Bool :=
  !searchMarks.contains text

theorem isFieldText_token {comparator : Comparator} (given : comparator ≠ .bound) :
    isFieldText comparator.token = false := by
  cases comparator <;> first | decide | exact absurd rfl given

theorem isFieldText_separator (logic : Logic) : isFieldText logic.separator = false := by
  cases logic <;> decide

theorem Predicate.fieldText_eq (p : Predicate) :
    ∃ before, p.fieldText = before ++ "," ++ String.singleton p.operand.type.formatChar := by
  obtain ⟨name, comparator, operand⟩ := p
  cases operand with
  | node place elements => exact ⟨_, rfl⟩
  | leaf l =>
    obtain ⟨place, content⟩ := l
    cases content <;> exact ⟨_, rfl⟩

theorem isFieldText_fieldText (p : Predicate) : isFieldText p.fieldText = true := by
  have comma : ',' ∈ p.fieldText.toList := by
    obtain ⟨before, same⟩ := p.fieldText_eq
    simp [same]
  have plain : ∀ mark ∈ searchMarks, ',' ∉ mark.toList := by
    intro mark inside
    simp only [searchMarks, Comparator.token, Logic.separator, List.map, List.cons_append,
      List.nil_append, List.mem_cons, List.not_mem_nil, or_false] at inside
    rcases inside with rfl | rfl | rfl | rfl | rfl | rfl | rfl | rfl | rfl | rfl | rfl <;> decide
  rw [isFieldText, Bool.not_eq_true', List.contains_eq_mem, decide_eq_false_iff_not]
  exact fun inside => plain _ inside comma

namespace SearchNode

theorem joiner_separator (node : SearchNode) (parent : Logic) :
    ∃ logic : Logic, node.joiner parent = logic.separator := by
  unfold joiner
  split
  · exact ⟨.exclusion, rfl⟩
  · exact ⟨parent, rfl⟩

theorem fields_leafTexts (mainframe : Bool) (p : Predicate) :
    (p.searchTexts mainframe).filter isFieldText = p.copies mainframe p.fieldText := by
  have field := isFieldText_fieldText p
  unfold Predicate.searchTexts Predicate.copies
  split
  · simp [field, isFieldText_separator]
  · split
    · simp [field]
    · rename_i given
      simp [field, isFieldText_token given]

mutual

theorem fields_searchTexts (mainframe : Bool) (node : SearchNode) :
    (node.searchTexts mainframe).filter isFieldText =
      node.leaves.flatMap fun p => p.copies mainframe p.fieldText := by
  match node with
  | .leaf p => simpa [searchTexts, leaves] using fields_leafTexts mainframe p
  | .branch logic [] => simp [searchTexts, leaves, leavesOfAll]
  | .branch logic (first :: rest) =>
    rw [searchTexts, leaves, leavesOfAll, List.filter_append, List.flatMap_append,
      fields_searchTexts mainframe first, fields_joinedTexts mainframe logic rest]

theorem fields_joinedTexts (mainframe : Bool) (logic : Logic) (nodes : List SearchNode) :
    (joinedTexts mainframe logic nodes).filter isFieldText =
      (leavesOfAll nodes).flatMap fun p => p.copies mainframe p.fieldText := by
  match nodes with
  | [] => rfl
  | node :: rest =>
    obtain ⟨joined, same⟩ := node.joiner_separator logic
    rw [joinedTexts, leavesOfAll, same, List.filter_cons, isFieldText_separator,
      if_neg Bool.false_ne_true, List.filter_append, List.flatMap_append,
      fields_searchTexts mainframe node, fields_joinedTexts mainframe logic rest]

end

theorem closed_searchTexts (mainframe : Bool) (node : SearchNode) :
    ∀ text ∈ node.searchTexts mainframe, Token.Closed text := by
  intro text inside
  cases kind : isFieldText text with
  | false =>
    have marks : ∀ mark ∈ searchMarks, Token.Closed mark := by decide
    have mark : searchMarks.contains text = true := by simpa [isFieldText] using kind
    exact marks text (List.contains_iff_mem.mp mark)
  | true =>
    have field : text ∈ (node.searchTexts mainframe).filter isFieldText :=
      List.mem_filter.mpr ⟨inside, kind⟩
    rw [fields_searchTexts] at field
    obtain ⟨p, -, copy⟩ := List.mem_flatMap.mp field
    have same : text = p.fieldText := Predicate.mem_copies.mp copy
    obtain ⟨before, shape⟩ := p.fieldText_eq
    rw [same, shape]
    exact (Token.closed_singleton (FieldKind.formatChar_ne_comma _)).append _

end SearchNode

/-- The segments of assigned predicates, those of doubled ones twice, make up their fields and their
operands. -/
theorem segments_exist (order : ByteOrder) (mainframe : Bool) {ps : List Predicate}
    (each : ∀ p ∈ ps, ∃ s, p.Writes order mainframe s ∧ p.fieldText = s.token) :
    ∃ segments : List (Predicate × Segment),
      segments.map Prod.fst = ps.flatMap (fun p => p.copies mainframe p) ∧
      (∀ x ∈ segments, x.1.Writes order mainframe x.2) ∧
      ps.flatMap (fun p => p.copies mainframe p.fieldText) = segments.map (fun x => x.2.token) ∧
      ∃ chunks, ps.mapM (fun p => p.valueBytes order mainframe) = .ok chunks ∧
        chunks.flatten = segments.flatMap fun x => x.2.bytes := by
  induction ps with
  | nil => exact ⟨[], rfl, by simp, rfl, [], rfl, rfl⟩
  | cons p ps ih =>
    obtain ⟨s, writes, token⟩ := each p (List.mem_cons_self ..)
    obtain ⟨segments, leaves, all, tokens, chunks, stored, values⟩ :=
      ih fun q hq => each q (List.mem_cons_of_mem p hq)
    have value : p.valueBytes order mainframe =
        .ok ((p.copies mainframe (p, s)).flatMap fun x => x.2.bytes) := by
      rw [Predicate.valueBytes, writes.bytes, Predicate.copies]
      cases p.isDoubled mainframe <;> simp [bind, Except.bind, pure, Except.pure, Chunk.whole]
    refine ⟨p.copies mainframe (p, s) ++ segments, ?_, ?_, ?_,
      (p.copies mainframe (p, s)).flatMap (fun x => x.2.bytes) :: chunks, ?_, ?_⟩
    · rw [List.map_append, Predicate.map_copies, leaves, List.flatMap_cons]
    · intro x hx
      rcases List.mem_append.mp hx with here | later
      · rw [Predicate.mem_copies.mp here]
        exact writes
      · exact all x later
    · rw [List.map_append, Predicate.map_copies, ← tokens, List.flatMap_cons, token]
    · rw [List.mapM_cons, value, stored]
      rfl
    · rw [List.flatten_cons, values, List.flatMap_append]

/-- The segments list both buffers of a tree: one for each predicate in its order, two for a doubled
one. Their tokens are the fields between the commas of the search buffer. -/
structure SearchTree.Aligned (order : ByteOrder) (mainframe : Bool) (tree : SearchTree)
    (segments : List (Predicate × Segment)) : Prop where
  leaves : segments.map Prod.fst = tree.root.leaves.flatMap (fun p => p.copies mainframe p)
  writes : ∀ x ∈ segments, x.1.Writes order mainframe x.2
  search : tree.searchBuffer = ",".intercalate (tree.root.searchTexts mainframe) ++ "."
  fields : (tree.root.searchTexts mainframe).filter isFieldText =
    segments.map (fun x => x.2.token)
  values : tree.valueBuffer = .ok (segments.flatMap fun x => x.2.bytes)

/-- Search buffer and value buffer of a compiled query list the same segments. -/
theorem search_buffers_aligned [Libraries] {q : Query} {platform : Platform}
    {definition : Definition}
    {order : ByteOrder} {tree : SearchTree}
    (compiled : q.compile platform definition order = .ok tree)
    (measured : ∀ p ∈ tree.root.leaves, p.operand.type.Measured) :
    ∃ segments, tree.Aligned order platform.isMainframe segments := by
  obtain ⟨assigned, mainframe, byteOrder⟩ := Query.compile_assigned compiled
  obtain ⟨segments, leaves, writes, tokens, chunks, stored, values⟩ :=
    segments_exist order platform.isMainframe
      fun p hp => (assigned p hp).segment (measured p hp) order platform.isMainframe
  refine ⟨segments, leaves, writes, ?search, ?fields, ?values⟩
  case search =>
    rw [SearchTree.searchBuffer, mainframe,
      Token.appendTexts_empty _ (tree.root.closed_searchTexts _)]
  case fields => rw [SearchNode.fields_searchTexts, tokens]
  case values =>
    rw [SearchTree.valueBuffer, mainframe, byteOrder, stored]
    show Except.ok chunks.flatten = _
    rw [values]

def pairedTypes : List FieldType :=
  [{ FieldType.ofKind (.text .short false) "AA" with length := 0 },
    .ofKind (.binary .two false) "BB", .superDescriptor "S1" []]

def pairedDefinition : Definition where
  platform := .mainframe
  types := pairedTypes
  index := (pairedTypes.map fun t => (t.shortName, t)).reverse
  values := pairedTypes.map (FieldType.fresh .mainframe)

def pairedLeaf (name : String) (comparator : Comparator) (type : FieldType) (content : Content) :
    SearchNode :=
  .leaf ⟨name, comparator, .leaf ⟨.top type .mainframe, content⟩⟩

def pairedTree : SearchTree where
  root := .branch .conjunction
    [pairedLeaf "AA" .equal { FieldType.ofKind (.text .short false) "AA" with length := 0 }
        (.text .short false ⟨[0x35], 1⟩),
      pairedLeaf "BB" .greaterOrEqual (.ofKind (.binary .two false) "BB") (.integer .two false 7),
      pairedLeaf "S1" .less (.superDescriptor "S1" []) (.superDescriptor [])]
  mainframe := true
  byteOrder := .little

theorem paired_buffers_aligned :
    Definition.ofTypes .mainframe pairedTypes = .ok pairedDefinition ∧
      Query.compile ⟨"AA=5 AND BB>=7 AND S1<#{1}".toList, [[]]⟩ .mainframe pairedDefinition
        .little = .ok pairedTree ∧
      (∀ p ∈ pairedTree.root.leaves, p.operand.type.Measured) ∧
      pairedTree.searchBuffer = "AA,0,A,S,AA,0,A,D,BB,2,B,GE,D,S1,0,A,LT." ∧
      pairedTree.valueBuffer = .ok [2, 0x35, 2, 0x35, 7, 0] ∧
      ∃ segments, pairedTree.Aligned .little true segments := by
  have compiled : Query.compile ⟨"AA=5 AND BB>=7 AND S1<#{1}".toList, [[]]⟩ .mainframe
      pairedDefinition .little = .ok pairedTree := rfl
  have measured : ∀ p ∈ pairedTree.root.leaves, p.operand.type.Measured := by
    intro p hp
    have member : p ∈ [_, _, _] := hp
    simp only [List.mem_cons, List.not_mem_nil, or_false] at member
    rcases member with rfl | rfl | rfl
    · exact ⟨rfl, rfl, nofun, nofun, nofun, nofun⟩
    · refine ⟨rfl, rfl, ?_, nofun, nofun, nofun⟩
      rintro width signed ⟨⟩
      rfl
    · exact ⟨rfl, rfl, nofun, nofun, nofun, nofun⟩
  have search : pairedTree.searchBuffer = "AA,0,A,S,AA,0,A,D,BB,2,B,GE,D,S1,0,A,LT." := by
    rw [SearchTree.searchBuffer, Token.appendTexts_empty _ (SearchNode.closed_searchTexts _ _)]
    rfl
  exact ⟨rfl, compiled, measured, search, rfl, search_buffers_aligned compiled measured⟩

end RecordCodec
