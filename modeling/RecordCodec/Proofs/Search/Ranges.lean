import RecordCodec.Libraries.Standard
import RecordCodec.Proofs.Search.Emission
import RecordCodec.Proofs.Search.Independence
import RecordCodec.Proofs.Search.Spelling

/-!
What a range emits. A predicate `F=[a:b]` on a field becomes a node over the values of its operands,
each read as if it stood alone; the node emits the tokens of its dialect with the operands in the
order of the tokens, and does so wherever the predicate stands in a query.
-/
namespace RecordCodec

open Mark

namespace Mark

theorem noBlank_place {row : List Mark} (plain : ∀ m ∈ row, m.isBlank = false) :
    Text.NoBlank (place row) := by
  intro c listed
  obtain ⟨m, inside, here⟩ := List.mem_flatMap.mp listed
  exact noBlank_placed (plain m inside) c here

theorem mem_of_mem_place {row : List Mark} {c : Char}
    (other : c ≠ '#' ∧ c ≠ '{' ∧ c ≠ '}' ∧ Text.isDigit c = false) (listed : c ∈ place row) :
    .char c ∈ row := by
  obtain ⟨m, inside, here⟩ := List.mem_flatMap.mp listed
  cases m with
  | char d => rwa [List.mem_singleton.mp here]
  | literal number raw =>
    rcases mem_placeholder here with same | same | same | digit
    · exact absurd same other.1
    · exact absurd same other.2.1
    · exact absurd same other.2.2.1
    · rw [other.2.2.2] at digit
      cases digit

end Mark

/-! ### Operands in the buffers -/

def Value.operandBytes (order : ByteOrder) (mainframe : Bool) (v : Value) : List UInt8 :=
  match v.store order (Predicate.storeRequest mainframe) with
  | .ok ⟨bytes, .none⟩ => bytes
  | _ => []

def Value.FitsChunk (v : Value) : Prop :=
  v.type.isLob = true → v.bytes.length ≤ (Predicate.storeRequest false).chunk

theorem Leaf.store_whole {l : Leaf} (suited : l.Suited) (given : l.content ≠ .pseudo)
    (whole : l.place.type.partialRange = none) (order : ByteOrder) {r : Request}
    (first : r.isFollowUp = false) (fits : l.place.type.isLob = true → l.bytes.length ≤ r.chunk) :
    ∃ bytes, l.store order r = .ok (.whole bytes) := by
  obtain ⟨p, content⟩ := l
  dsimp only at whole
  cases suited with
  | pseudo => exact absurd rfl given
  | @text size unicode c kind =>
    dsimp only at kind
    have small : (TextField.isLob p size && decide (r.chunk < c.bytes.length)) = false := by
      rw [Bool.and_eq_false_iff, decide_eq_false_iff_not, Nat.not_lt]
      cases lob : TextField.isLob p size with
      | false => exact .inl rfl
      | true =>
        refine .inr (fits ?_)
        rw [FieldType.isLob, kind]
        cases size with
        | short | long => cases lob
        | large => simpa [TextField.isLob] using lob
    exact ⟨TextField.storeWhole order p size c.bytes, by
      simp [store, TextField.store, whole, small, first]⟩
  | integer | octets | float | packed | unpacked | superDescriptor =>
    exact ⟨_, if_neg (Bool.eq_false_iff.mp first)⟩

theorem Value.buffers_of_assigned [Libraries] {platform : Platform} {field : FieldType}
    {scalar : Scalar}
    {v : Value} (assigned : (field.fresh platform).assignOperand scalar = .ok v)
    (whole : field.partialRange = none) (fits : v.FitsChunk) (order : ByteOrder)
    (mainframe : Bool) :
    v.shortName = field.shortName ∧
      (∀ name comparator,
        (Predicate.mk name comparator v).fieldText = field.searchToken v.bytes) ∧
      v.store order (Predicate.storeRequest mainframe) =
        .ok (.whole (v.operandBytes order mainframe)) := by
  have type : v.type = field := by
    rw [Value.type, Value.place_assignOperand assigned, FieldType.place_fresh]
  obtain ⟨l, rfl, suited, given, outside⟩ := Predicate.Assigned.leaf
    (p := ⟨"", .bound, v⟩) ⟨field, scalar, assigned⟩
  subst type
  obtain ⟨bytes, stored⟩ := Leaf.store_whole suited given whole order
    (r := Predicate.storeRequest mainframe) rfl fits
  have stored' : (Value.leaf l).store order (Predicate.storeRequest mainframe) =
      .ok (.whole bytes) := stored
  refine ⟨rfl, fun _ _ => l.searchTokenText_eq suited outside, ?_⟩
  rw [Value.operandBytes, stored']
  rfl

/-! ### Ranges as they are written -/

namespace Query

structure RangeText where
  name : List Char
  openLow : Bool
  openHigh : Bool
  low : List Char
  high : List Char

def RangeText.text (r : RangeText) : List Char :=
  r.name ++ '=' :: (if r.openLow then '(' else '[') ::
    (r.low ++ ':' :: (r.high ++ [if r.openHigh then ')' else ']']))

/-- A name that a query can hold: no character of it is a quote or one of a comparator, and no blank
stands at its ends. -/
structure Writable (name : List Char) : Prop where
  given : name ≠ []
  trimmed : Text.trim name = name
  noOperator : Comparator.NoOperator name
  noQuote : '\'' ∉ name

/-- An operand that has no blank, no colon and no start of a placeholder outside of its literals. -/
structure Plain (operand : List Char) : Prop where
  noBlank : ∀ m ∈ marksOutside 0 operand, m.isBlank = false
  noColon : .char ':' ∉ marksOutside 0 operand
  unmarked : Unmarked (marksOutside 0 operand)

section

variable [Libraries]

def operandValue (platform : Platform) (order : ByteOrder) (field : FieldType)
    (operand : List Char) : Except FieldFault Value := do
  let q ← ofText operand
  let scalar ← Operand.ofText order q.constants q.search
  (field.fresh platform).assignOperand scalar

/-- A field takes an operand as a value, which one store writes as a whole. -/
structure Accepts (t : SearchTarget) (field : FieldType) (operand : List Char) (v : Value) :
    Prop where
  plain : Plain operand
  value : operandValue t.platform t.byteOrder field operand = .ok v
  fits : v.FitsChunk

theorem Accepts.read {t : SearchTarget} {field : FieldType} {operand : List Char} {v : Value}
    (accepted : Accepts t field operand v) : ∃ q scalar, ofText operand = .ok q ∧
      Operand.ofText t.byteOrder q.constants (place (marksOutside 0 operand)) = .ok scalar ∧
      (field.fresh t.platform).assignOperand scalar = .ok v := by
  obtain ⟨q, read, value⟩ := Outcome.bind_ok.mp accepted.value
  obtain ⟨scalar, meant, assigned⟩ := Outcome.bind_ok.mp value
  obtain ⟨search, collapsed, -, placed, -⟩ := marked_of_read read
  rw [collapsed, placed, Text.collapse_of_noBlank (noBlank_place accepted.plain.noBlank)] at meant
  exact ⟨q, scalar, read, meant, assigned⟩

theorem Accepts.leaf {t : SearchTarget} {name : List Char} {field : FieldType}
    (found : t.definition.field (String.ofList name) = .ok field) {operand : List Char} {v : Value}
    (accepted : Accepts t field.compared operand v) {row : List Mark}
    (same : SameText (marksOutside 0 operand) row) (held : Held t.constants row)
    (comparator : Comparator) :
    t.leaf name comparator (place row) = .ok (.leaf ⟨String.ofList name, comparator, v⟩) := by
  obtain ⟨q, scalar, read, meant, assigned⟩ := accepted.read
  have here := Operand.ofText_place ⟨same, held_marks read, held, accepted.plain.unmarked⟩ meant
  refine Outcome.bind_ok.mpr ⟨field, found, Outcome.bind_ok.mpr ⟨scalar, here, ?_⟩⟩
  exact Outcome.bind_ok.mpr ⟨v, assigned, rfl⟩

end

/-- A row that is the text of a range is a range of rows that are the texts of its operands. -/
theorem RangeText.marks {r : RangeText} {row : List Mark} (written : row.flatMap Mark.text = r.text)
    (closed : ∀ m ∈ row, m.Closed) (noQuote : '\'' ∉ r.name) {lowQuery highQuery : Query}
    (lowRead : ofText r.low = .ok lowQuery) (highRead : ofText r.high = .ok highQuery) :
    ∃ lows highs, SameText (marksOutside 0 r.low) lows ∧ SameText (marksOutside 0 r.high) highs ∧
      row = r.name.map .char ++ .char '=' :: .char (if r.openLow then '(' else '[') ::
        (lows ++ .char ':' :: (highs ++ [.char (if r.openHigh then ')' else ']')])) := by
  obtain ⟨_, -, lowText, -, -⟩ := marked_of_read lowRead
  obtain ⟨_, -, highText, -, -⟩ := marked_of_read highRead
  -- Both are closed marks of one text, so they are alike, and one part after the other is read off.
  have same : SameText (r.name.map .char ++ .char '=' :: .char (if r.openLow then '(' else '[') ::
      (marksOutside 0 r.low ++ .char ':' :: (marksOutside 0 r.high ++
        [.char (if r.openHigh then ')' else ']')]))) row := by
    refine sameText_of_text ?_ closed ?_
    · intro m listed
      simp only [List.mem_append, List.mem_cons, List.mem_map, List.not_mem_nil, or_false] at listed
      rcases listed with ⟨c, inName, rfl⟩ | rfl | rfl | inLow | rfl | inHigh | rfl
      · rintro rfl
        exact noQuote inName
      · exact (by decide : '=' ≠ '\'')
      · cases r.openLow <;> simp [Closed]
      · exact closed_marks lowRead m inLow
      · exact (by decide : ':' ≠ '\'')
      · exact closed_marks highRead m inHigh
      · cases r.openHigh <;> simp [Closed]
    · rw [written, List.flatMap_append, flatMap_char]
      simp [Mark.text, lowText, highText, RangeText.text]
  obtain ⟨name, _, rfl, nameSame, sign⟩ := same.of_append rfl
  obtain ⟨_, rfl, opening⟩ := sign.of_char rfl
  obtain ⟨_, rfl, bounds⟩ := opening.of_char rfl
  obtain ⟨lows, _, rfl, lowSame, colon⟩ := bounds.of_append rfl
  obtain ⟨_, rfl, last⟩ := colon.of_char rfl
  obtain ⟨highs, _, rfl, highSame, closing⟩ := last.of_append rfl
  obtain ⟨_, rfl, none⟩ := closing.of_char rfl
  have bare : ∀ m ∈ r.name.map Mark.char, m.isLiteral = false := by
    intro m listed
    obtain ⟨c, -, rfl⟩ := List.mem_map.mp listed
    rfl
  rw [nameSame.eq_of_bare bare, none.of_nil rfl]
  exact ⟨lows, highs, lowSame, highSame, rfl⟩

namespace RangeText

theorem predicate [Libraries] {r : RangeText} {t : SearchTarget} {row : List Mark}
    (written : row.flatMap Mark.text = r.text) (closed : ∀ m ∈ row, m.Closed)
    (held : Held t.constants row) (name : Writable r.name) {field : FieldType}
    (found : t.definition.field (String.ofList r.name) = .ok field) {low high : Value}
    (lowAccepted : Accepts t field.compared r.low low)
    (highAccepted : Accepts t field.compared r.high high) :
    t.predicate (place row) = .ok (Written.rangeNode t.platform.isMainframe
      (String.ofList r.name) r.openLow r.openHigh low high) := by
  obtain ⟨_, _, lowRead, -⟩ := lowAccepted.read
  obtain ⟨_, _, highRead, -⟩ := highAccepted.read
  obtain ⟨lows, highs, lowSame, highSame, rfl⟩ :=
    marks written closed name.noQuote lowRead highRead
  have lowHeld : Held t.constants lows := fun number raw inside =>
    held number raw (by simp [inside])
  have highHeld : Held t.constants highs := fun number raw inside =>
    held number raw (by simp [inside])
  -- The range is cut at its first colon, which must be the one behind the first operand.
  have noColon : ':' ∉ place lows := fun colon => lowAccepted.plain.noColon
    (mem_of_mem_place (by decide)
      (Operand.mem_place_of_sameText lowSame.symm (by decide) colon))
  let operand : List Char := (if r.openLow then '(' else '[') ::
    (place lows ++ ':' :: (place highs ++ [if r.openHigh then ')' else ']']))
  have text : place (r.name.map .char ++ .char '=' :: .char (if r.openLow then '(' else '[') ::
      (lows ++ .char ':' :: (highs ++ [.char (if r.openHigh then ')' else ']')]))) =
      r.name ++ (Written.Sign.equal.text ++ operand) := by
    rw [place_append, place_char]
    simp [operand, place, placed, Written.Sign.text]
  have trimmed : Text.trim operand = operand := by
    have last : operand.getLast? = some (if r.openHigh then ')' else ']') := by
      simp only [operand]
      rw [← List.cons_append, ← List.cons_append, ← List.append_assoc, List.getLast?_concat]
    apply Text.trim_of_ends
    · intro c first
      cases first
      cases r.openLow <;> decide
    · intro c ends
      rw [last] at ends
      cases ends
      cases r.openHigh <;> decide
  have parts := predicateParts_text .equal name.given name.trimmed name.noOperator
    (rfl : operand = _ :: _) (by cases r.openLow <;> decide) trimmed
  have equality : Written.Sign.equal.comparator = .equal := rfl
  rw [text, t.predicate_of_parts parts, if_pos (Written.isRange_brackets ..), if_pos equality,
    Written.range_brackets _ _ _ _ _ noColon]
  have lower := fun comparator => lowAccepted.leaf found lowSame lowHeld comparator
  have upper := fun comparator => highAccepted.leaf found highSame highHeld comparator
  cases mainframe : t.platform.isMainframe <;> cases r.openLow <;> cases r.openHigh <;>
    simp [SearchTarget.mainframeRange, SearchTarget.openRange, lower, upper, Written.rangeNode,
      Written.excluded, bind, Except.bind, pure, Except.pure]

end RangeText

end Query

/-! ### What a range emits -/

def rangeTexts (mainframe openLow openHigh : Bool) (low high : String) : List String :=
  if mainframe then
    [low, "S", high] ++ match openLow, openHigh with
      | false, false => []
      | false, true => ["N", high]
      | true, false => ["N", low]
      | true, true => ["N", low, "D", high, "NE"]
  else [low, if openLow then "GT" else "GE", "S", high, if openHigh then "LT" else "LE"]

def rangeBytes (mainframe openLow openHigh : Bool) (low high : List UInt8) : List UInt8 :=
  if mainframe then
    low ++ high ++ match openLow, openHigh with
      | false, false => []
      | false, true => high
      | true, false => low
      | true, true => low ++ high
  else low ++ high

def Query.RangeText.emission (r : RangeText) (t : SearchTarget) (field : FieldType)
    (low high : Value) : PredicateEmission where
  texts := rangeTexts t.platform.isMainframe r.openLow r.openHigh (field.searchToken low.bytes)
    (field.searchToken high.bytes)
  bytes := .ok (rangeBytes t.platform.isMainframe r.openLow r.openHigh
    (low.operandBytes t.byteOrder t.platform.isMainframe)
    (high.operandBytes t.byteOrder t.platform.isMainframe))
  field := field.shortName

section Nodes

variable {order : ByteOrder} {mainframe : Bool} {name : String} {v : Value}

theorem Predicate.searchTexts_of_token (mainframe : Bool) {comparator : Comparator}
    (unequal : comparator ≠ .equal) {token : String}
    (written : (Predicate.mk name comparator v).fieldText = token) :
    (Predicate.mk name comparator v).searchTexts mainframe =
      if comparator = .bound then [token] else [token, comparator.token] := by
  have single : (Predicate.mk name comparator v).isDoubled mainframe = false := by
    simp [isDoubled, unequal]
  rw [searchTexts, single, if_neg Bool.false_ne_true, written]

theorem Predicate.valueBytes_of_store (name : String) {comparator : Comparator}
    (unequal : comparator ≠ .equal) {bytes : List UInt8}
    (stored : v.store order (storeRequest mainframe) = .ok (.whole bytes)) :
    (Predicate.mk name comparator v).valueBytes order mainframe = .ok bytes := by
  have single : (Predicate.mk name comparator v).isDoubled mainframe = false := by
    simp [isDoubled, unequal]
  rw [valueBytes, stored, single]
  rfl

/-- The node of a range emits the tokens of its dialect, and the operands in their order. -/
theorem SearchNode.emits_rangeNode {low high : Value} {lowToken highToken : String}
    {lowBytes highBytes : List UInt8} (openLow openHigh : Bool)
    (lowText : ∀ comparator, (Predicate.mk name comparator low).fieldText = lowToken)
    (highText : ∀ comparator, (Predicate.mk name comparator high).fieldText = highToken)
    (lowStored : low.store order (Predicate.storeRequest mainframe) = .ok (.whole lowBytes))
    (highStored : high.store order (Predicate.storeRequest mainframe) = .ok (.whole highBytes)) :
    (Written.rangeNode mainframe name openLow openHigh low high).Emits order mainframe
      ⟨rangeTexts mainframe openLow openHigh lowToken highToken,
        .ok (rangeBytes mainframe openLow openHigh lowBytes highBytes)⟩ := by
  have lowTexts := fun (comparator : Comparator) (unequal : comparator ≠ .equal) =>
    Predicate.searchTexts_of_token mainframe unequal (lowText comparator)
  have highTexts := fun (comparator : Comparator) (unequal : comparator ≠ .equal) =>
    Predicate.searchTexts_of_token mainframe unequal (highText comparator)
  have lowValue := fun (comparator : Comparator) (unequal : comparator ≠ .equal) =>
    Predicate.valueBytes_of_store name unequal lowStored
  have highValue := fun (comparator : Comparator) (unequal : comparator ≠ .equal) =>
    Predicate.valueBytes_of_store name unequal highStored
  cases mainframe <;> cases openLow <;> cases openHigh <;>
    exact ⟨by simp [Written.rangeNode, Written.excluded, searchTexts, joinedTexts, joiner,
        lowTexts, highTexts, Logic.separator, Comparator.token, rangeTexts],
      by simp [Written.rangeNode, Written.excluded, values, leaves, leavesOfAll, lowValue,
        highValue, rangeBytes, bind, Except.bind, pure, Except.pure, Except.map],
      fun _ => rfl⟩

end Nodes

namespace Query

section

variable [Libraries]

/-- What a predicate of a query emits. That of a range is told by its text and the values of its
operands, that of any other predicate by what it compiles to. -/
inductive RowEmits (t : SearchTarget) (row : List Mark) : PredicateEmission → Prop where
  | range {r : RangeText} {field : FieldType} {low high : Value}
      (written : row.flatMap Mark.text = r.text) (name : Writable r.name)
      (found : t.definition.field (String.ofList r.name) = .ok field)
      (whole : field.compared.partialRange = none)
      (lowAccepted : Accepts t field.compared r.low low)
      (highAccepted : Accepts t field.compared r.high high) :
      RowEmits t row (r.emission t field.compared low high)
  | other {e : PredicateEmission} (compiled : t.emission (place row) = .ok e) : RowEmits t row e

theorem RowEmits.compiled {t : SearchTarget} {row : List Mark} {e : PredicateEmission}
    (closed : ∀ m ∈ row, m.Closed) (held : Held t.constants row) (emitted : RowEmits t row e) :
    t.emission (place row) = .ok e := by
  cases emitted with
  | other compiled => exact compiled
  | @range r field low high written name found whole lowAccepted highAccepted =>
    obtain ⟨_, _, -, -, lowAssigned⟩ := lowAccepted.read
    obtain ⟨_, _, -, -, highAssigned⟩ := highAccepted.read
    obtain ⟨lowName, lowText, lowStored⟩ := Value.buffers_of_assigned lowAssigned whole
      lowAccepted.fits t.byteOrder t.platform.isMainframe
    obtain ⟨-, highText, highStored⟩ := Value.buffers_of_assigned highAssigned whole
      highAccepted.fits t.byteOrder t.platform.isMainframe
    have emits := SearchNode.emits_rangeNode r.openLow r.openHigh (lowText (String.ofList r.name))
      (highText (String.ofList r.name)) lowStored highStored
    refine Outcome.map_ok.mpr
      ⟨_, RangeText.predicate written closed held name found lowAccepted highAccepted, ?_⟩
    have first : ((Written.rangeNode t.platform.isMainframe (String.ofList r.name) r.openLow
        r.openHigh low high).leaves.head?.map Predicate.shortName).getD "" =
          field.compared.shortName := by
      rw [← lowName]
      cases t.platform.isMainframe <;> rfl
    rw [SearchNode.emission, emits.texts, emits.bytes, first]
    rfl

/-- Ranges emit the tokens and the operands of their dialect: a query compiles if its operands are
accepted, and its buffers have, for each range as for each other predicate, what the predicate emits
alone, with the separators of the query between them. -/
theorem ranges_emit {s : List Char} {q : Query} (read : ofText s = .ok q) {platform : Platform}
    {d : Definition} {order : ByteOrder} {groups : List (List PredicateEmission)}
    (rows : List.Forall₂ (List.Forall₂ (RowEmits ⟨platform, d, order, q.constants⟩))
      (groupMarks s) groups) :
    ∃ tree, q.compile platform d order = .ok tree ∧
      tree.searchBuffer = ",".intercalate (SearchEmission.ofGroups groups).texts ++ "." ∧
      tree.valueBuffer = (SearchEmission.ofGroups groups).bytes := by
  have inQuery : ∀ group ∈ groupMarks s, ∀ row ∈ group, row ∈ predicateMarks s := by
    intro group outer row inner
    rw [← flatten_groupMarks]
    exact List.mem_flatten.mpr ⟨group, outer, inner⟩
  refine compile_emits read (((List.forall₂_and_left _ _).mpr ⟨inQuery, rows⟩).imp ?_)
  rintro group es ⟨listed, each⟩
  refine ((List.forall₂_and_left _ _).mpr ⟨listed, each⟩).imp ?_
  rintro row e ⟨listed, emitted⟩
  exact emitted.compiled (closed_predicateMarks read listed) (held_predicateMarks read listed)

end

def spanText : List Char :=
  "AA=('P':Q) or AA=R AND S1=[1:22)".toList

def spanQuery : Query :=
  ⟨"AA=(#\x7b1\x7d:Q) or AA=R AND S1=[1:22)".toList, [['P']]⟩

def spanTarget : SearchTarget :=
  ⟨.mainframe, pairedDefinition, .little, spanQuery.constants⟩

def letterSpan : RangeText := ⟨['A', 'A'], true, true, "'P'".toList, ['Q']⟩

def derivedSpan : RangeText := ⟨['S', '1'], false, true, ['1'], ['2', '2']⟩

def letterOperand (byte : UInt8) : Value :=
  .leaf ⟨.top (letterField "AA") .mainframe, .text .short false ⟨[byte], 1⟩⟩

def derivedOperand (bytes : List UInt8) : Value :=
  .leaf ⟨.top (.superDescriptor "S1" []) .mainframe, .superDescriptor bytes⟩

def spanEmissions : List (List PredicateEmission) :=
  [[letterSpan.emission spanTarget (letterField "AA") (letterOperand 0x50) (letterOperand 0x51),
      ⟨⟨["AA,0,A", "S", "AA,0,A"], .ok [2, 0x52, 2, 0x52]⟩, "AA"⟩],
    [derivedSpan.emission spanTarget (.superDescriptor "S1" []) (derivedOperand [0x31])
      (derivedOperand [0x32, 0x32])]]

theorem spans_emitted :
    Definition.ofTypes .mainframe pairedTypes = .ok pairedDefinition ∧
      ofText spanText = .ok spanQuery ∧
      List.Forall₂ (List.Forall₂ (RowEmits spanTarget)) (groupMarks spanText) spanEmissions ∧
      ∃ tree, spanQuery.compile .mainframe pairedDefinition .little = .ok tree ∧
        tree.searchBuffer =
          "AA,0,A,S,AA,0,A,N,AA,0,A,D,AA,0,A,NE,O,AA,0,A,S,AA,0,A,D,S1,1,A,S,S1,2,A,N,S1,2,A." ∧
        tree.valueBuffer = .ok [2, 0x50, 2, 0x51, 2, 0x50, 2, 0x51, 2, 0x52, 2, 0x52, 0x31, 0x32,
          0x32, 0x32, 0x32] := by
  have read : ofText spanText = .ok spanQuery := rfl
  have groups : groupMarks spanText =
      [["AA=(".toList.map .char ++ .literal 1 ['P'] :: ":Q)".toList.map .char,
        "AA=R".toList.map .char], [derivedSpan.text.map .char]] := rfl
  have letters : RowEmits spanTarget
      ("AA=(".toList.map .char ++ .literal 1 ['P'] :: ":Q)".toList.map .char)
      (letterSpan.emission spanTarget (letterField "AA") (letterOperand 0x50)
        (letterOperand 0x51)) :=
    @RowEmits.range _ _ _ letterSpan (letterField "AA") (letterOperand 0x50) (letterOperand 0x51)
      rfl ⟨by decide, rfl, by decide, by decide⟩ rfl rfl
      ⟨⟨by decide, by decide, by decide⟩, rfl, nofun⟩
      ⟨⟨by decide, by decide, by decide⟩, rfl, nofun⟩
  have derived : RowEmits spanTarget (derivedSpan.text.map .char)
      (derivedSpan.emission spanTarget (.superDescriptor "S1" []) (derivedOperand [0x31])
        (derivedOperand [0x32, 0x32])) :=
    @RowEmits.range _ _ _ derivedSpan (.superDescriptor "S1" []) (derivedOperand [0x31])
      (derivedOperand [0x32, 0x32]) rfl ⟨by decide, rfl, by decide, by decide⟩ rfl rfl
      ⟨⟨by decide, by decide, by decide⟩, rfl, nofun⟩
      ⟨⟨by decide, by decide, by decide⟩, rfl, nofun⟩
  have rows : List.Forall₂ (List.Forall₂ (RowEmits spanTarget)) (groupMarks spanText)
      spanEmissions := by
    rw [groups]
    exact .cons (.cons letters (.cons (.other rfl) .nil)) (.cons (.cons derived .nil) .nil)
  obtain ⟨tree, compiled, search, values⟩ := ranges_emit read rows
  exact ⟨rfl, read, rows, tree, compiled, search, values⟩

def equalField : FieldType :=
  letterField "A=B"

def equalDefinition : Definition where
  platform := .openSystem
  types := [equalField]
  index := [("A=B", equalField)]
  values := [equalField.fresh .openSystem]

def equalOperand (byte : UInt8) : Value :=
  .leaf ⟨.top equalField .openSystem, .text .short false ⟨[byte], 1⟩⟩

def equalSpan : RangeText := ⟨['A', '=', 'B'], false, false, ['1'], ['2']⟩

/-- A field with an operator in its name takes both operands, but no range on it compiles: its name
is cut at the operator. -/
theorem operator_in_name_refused :
    Definition.ofTypes .openSystem [equalField] = .ok equalDefinition ∧
      equalDefinition.field "A=B" = .ok equalField ∧ equalField.compared.partialRange = none ∧
      Accepts ⟨.openSystem, equalDefinition, .big, []⟩ equalField ['1'] (equalOperand 0x31) ∧
      Accepts ⟨.openSystem, equalDefinition, .big, []⟩ equalField ['2'] (equalOperand 0x32) ∧
      ofText equalSpan.text = .ok ⟨"A=B=[1:2]".toList, []⟩ ∧
      Query.compile ⟨"A=B=[1:2]".toList, []⟩ .openSystem equalDefinition .big =
        .error (.fieldNotFound "A") :=
  ⟨rfl, rfl, rfl, ⟨⟨by decide, by decide, by decide⟩, rfl, nofun⟩,
    ⟨⟨by decide, by decide, by decide⟩, rfl, nofun⟩, rfl, rfl⟩

end Query

end RecordCodec
