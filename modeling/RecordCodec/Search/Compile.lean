import RecordCodec.Definition.Basic
import RecordCodec.Search.Literal
import RecordCodec.Search.Tree

/-!
Compiling a query against a definition. The query is split at `AND`, then at `OR`; each predicate is
a field name, a comparator and an operand, and a bracketed operand is a range.
-/
namespace RecordCodec

variable [Libraries]

structure SearchTarget where
  platform : Platform
  definition : Definition
  byteOrder : ByteOrder
  constants : List (List Char)

namespace Query

/-- The parts of a text between a keyword in any letter case, after `skip` characters that belong to
a keyword; `part` is what was read of the current part, reversed. -/
def splitFrom (keyword : List Char) : Nat → List Char → List Char → List (List Char)
  | _, part, [] => [part.reverse]
  | skip + 1, part, _ :: rest => splitFrom keyword skip part rest
  | 0, part, c :: rest =>
    if ((c :: rest).take keyword.length).map Text.upperAscii = keyword then
      part.reverse :: splitFrom keyword (keyword.length - 1) [] rest
    else splitFrom keyword 0 (c :: part) rest

def split (keyword s : List Char) : List (List Char) :=
  (splitFrom keyword 0 [] s).map Text.trim

def conjunctionKeyword : List Char := [' ', 'A', 'N', 'D', ' ']

def disjunctionKeyword : List Char := [' ', 'O', 'R', ' ']

def isRange (s : List Char) : Bool :=
  (s.head? == some '[' || s.head? == some '(') &&
    (s.getLast? == some ']' || s.getLast? == some ')') && s.contains ':'

def predicateParts (s : List Char) :
    Except FieldFault (List Char × Comparator × List Char) :=
  let before := s.takeWhile fun c => !Comparator.isOperatorChar c
  let behind := s.dropWhile fun c => !Comparator.isOperatorChar c
  let operator := behind.takeWhile Comparator.isOperatorChar
  let field := Text.trim before
  let operand := Text.trim (behind.dropWhile Comparator.isOperatorChar)
  let bad : FieldFault := .invalidComparator (String.ofList s)
  if operator.isEmpty || field.isEmpty || operand.isEmpty then .error bad
  else
    match Comparator.ofText? operator with
    | some comparator => .ok (field, comparator, operand)
    | none => .error bad

end Query

namespace SearchTarget

def leaf (t : SearchTarget) (field : List Char) (comparator : Comparator) (operand : List Char) :
    Except FieldFault SearchNode := do
  let name := String.ofList field
  let type ← t.definition.field name
  let type := type.element?.getD type
  let scalar ← Operand.ofText t.byteOrder t.constants operand
  let value ← (type.fresh t.platform).assignOperand scalar
  return .leaf ⟨name, comparator, value⟩

def openRange (t : SearchTarget) (field low high : List Char) (openLow openHigh : Bool) :
    Except FieldFault SearchNode := do
  let lower ← t.leaf field (if openLow then .greater else .greaterOrEqual) low
  let upper ← t.leaf field (if openHigh then .less else .lessOrEqual) high
  return .branch .range [lower, upper]

/-- A range on a mainframe: both bounds, and what is left out of them. -/
def mainframeRange (t : SearchTarget) (field low high : List Char) (openLow openHigh : Bool) :
    Except FieldFault SearchNode := do
  let lower ← t.leaf field .bound low
  let upper ← t.leaf field .bound high
  let excluded ← match openLow, openHigh with
    | true, true => do
      let first ← t.leaf field .bound low
      let last ← t.leaf field .notEqual high
      pure [SearchNode.branch .exclusion [.branch .conjunction [first, last]]]
    | true, false => do
      let first ← t.leaf field .bound low
      pure [SearchNode.branch .exclusion [first]]
    | false, true => do
      let last ← t.leaf field .bound high
      pure [SearchNode.branch .exclusion [last]]
    | false, false => pure []
  return .branch .range (lower :: upper :: excluded)

def range (t : SearchTarget) (field operand : List Char) : Except FieldFault SearchNode :=
  let inner := operand.tail.dropLast
  let low := inner.takeWhile (· != ':')
  let high := (inner.dropWhile (· != ':')).tail
  let openLow := operand.head? == some '('
  let openHigh := operand.getLast? == some ')'
  if t.platform.isMainframe then t.mainframeRange field low high openLow openHigh
  else t.openRange field low high openLow openHigh

def predicate (t : SearchTarget) (s : List Char) : Except FieldFault SearchNode := do
  let (field, comparator, operand) ← Query.predicateParts s
  if Query.isRange operand then
    if comparator = .equal then t.range field operand
    else throw (.invalidComparator (String.ofList s))
  else t.leaf field comparator operand

def onOneField (nodes : List SearchNode) : Bool :=
  match (SearchNode.leavesOfAll nodes).map Predicate.shortName with
  | [] => false
  | name :: others => others.all (· == name)

def disjunction (t : SearchTarget) (s : List Char) : Except FieldFault SearchNode :=
  match Query.split Query.disjunctionKeyword s with
  | [] | [_] => t.predicate (Text.trim s)
  | parts => do
    let nodes ← parts.mapM t.predicate
    return .branch (if onOneField nodes then .sameField else .disjunction) nodes

def conjunction (t : SearchTarget) (s : List Char) : Except FieldFault SearchNode :=
  match Query.split Query.conjunctionKeyword s with
  | [] | [_] => t.disjunction s
  | parts => do
    let nodes ← parts.mapM t.disjunction
    return .branch .conjunction nodes

end SearchTarget

def Query.compile (q : Query) (platform : Platform) (definition : Definition)
    (byteOrder : ByteOrder) : Except FieldFault SearchTree := do
  let target : SearchTarget := ⟨platform, definition, byteOrder, q.constants⟩
  let root ← target.conjunction q.search
  return ⟨root, platform.isMainframe, byteOrder⟩

end RecordCodec
