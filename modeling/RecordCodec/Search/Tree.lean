import RecordCodec.Search.Operator
import RecordCodec.Value.Store

/-!
Search trees: predicates joined by logic, and what a request needs of one. The search buffer lists
the fields and comparators, the value buffer the operands in the same order. A mainframe has no
token for equality; it takes the field twice, as a range from the operand to itself.
-/
namespace RecordCodec

variable [Libraries]

/-- A field, a comparator and an operand, which is a value of the field. -/
structure Predicate where
  /-- The name of the field as the query has it. -/
  name : String
  comparator : Comparator
  operand : Value

namespace Predicate

def shortName (p : Predicate) : String :=
  p.operand.shortName

def isDescriptor (p : Predicate) : Bool :=
  p.operand.type.isDescriptor

def isDoubled (mainframe : Bool) (p : Predicate) : Bool :=
  mainframe && p.comparator == .equal

def fieldText (p : Predicate) : String :=
  match p.operand with
  | .leaf l => l.searchTokenText
  | .node place _ => place.tokenText

def searchTexts (mainframe : Bool) (p : Predicate) : List String :=
  if p.isDoubled mainframe then [p.fieldText, Logic.range.separator, p.fieldText]
  else if p.comparator = .bound then [p.fieldText]
  else [p.fieldText, p.comparator.token]

def storeRequest (mainframe : Bool) : Request :=
  { Request.ofCall true 0 with mainframe }

def valueBytes (order : ByteOrder) (mainframe : Bool) (p : Predicate) :
    Except FieldFault (List UInt8) := do
  let chunk ← p.operand.store order (storeRequest mainframe)
  return if p.isDoubled mainframe then chunk.bytes ++ chunk.bytes else chunk.bytes

def text (p : Predicate) : String :=
  s!"{p.name} {p.comparator.token} {String.ofList p.operand.text}({p.operand.type.length})"

end Predicate

inductive SearchNode where
  | leaf (p : Predicate)
  | branch (logic : Logic) (children : List SearchNode)

namespace SearchNode

mutual

def leaves : SearchNode → List Predicate
  | leaf p => [p]
  | branch _ children => leavesOfAll children

def leavesOfAll : List SearchNode → List Predicate
  | [] => []
  | node :: rest => node.leaves ++ leavesOfAll rest

end

mutual

def containsLogic (wanted : Logic) : SearchNode → Bool
  | leaf _ => false
  | branch logic children => logic == wanted || anyContainsLogic wanted children

def anyContainsLogic (wanted : Logic) : List SearchNode → Bool
  | [] => false
  | node :: rest => node.containsLogic wanted || anyContainsLogic wanted rest

end

def joiner (parent : Logic) : SearchNode → String
  | branch .exclusion _ => Logic.exclusion.separator
  | _ => parent.separator

mutual

def searchTexts (mainframe : Bool) : SearchNode → List String
  | leaf p => p.searchTexts mainframe
  | branch logic children =>
    match children with
    | [] => []
    | first :: rest => first.searchTexts mainframe ++ joinedTexts mainframe logic rest

def joinedTexts (mainframe : Bool) (logic : Logic) : List SearchNode → List String
  | [] => []
  | node :: rest =>
    node.joiner logic :: (node.searchTexts mainframe ++ joinedTexts mainframe logic rest)

end

mutual

def lines (depth : Nat) : SearchNode → List String
  | leaf p => [String.ofList (List.replicate (2 * depth) ' ') ++ p.text]
  | branch logic children =>
    (String.ofList (List.replicate (2 * depth) ' ') ++ logic.name) ::
      linesOfAll (depth + 1) children

def linesOfAll (depth : Nat) : List SearchNode → List String
  | [] => []
  | node :: rest => node.lines depth ++ linesOfAll depth rest

end

def text (node : SearchNode) : String :=
  String.join ((node.lines 0).map fun line => line ++ "\n")

end SearchNode

structure SearchTree where
  root : SearchNode
  mainframe : Bool
  byteOrder : ByteOrder

namespace SearchTree

def searchBuffer (t : SearchTree) : String :=
  Token.appendTexts "" (t.root.searchTexts t.mainframe) ++ "."

def valueBuffer (t : SearchTree) : Except FieldFault (List UInt8) :=
  (t.root.leaves.mapM fun (p : Predicate) => p.valueBytes t.byteOrder t.mainframe).map List.flatten

def distinct (names : List String) : List String :=
  names.foldl (fun seen name => if seen.contains name then seen else seen ++ [name]) []

def orderBy (t : SearchTree) : List String :=
  distinct ((t.root.leaves.filter Predicate.isDescriptor).map Predicate.shortName)

def fieldNames (t : SearchTree) : List String :=
  distinct (t.root.leaves.map fun p => p.operand.type.name)

/-- Whether the search must be evaluated as one. Walking a descriptor is enough when it is the only
field, nothing is compared for inequality and a mainframe has no range. -/
def needsSearch (t : SearchTree) : Bool :=
  let single := t.orderBy.length == 1 && t.root.leaves.all Predicate.isDescriptor
  let unequal := t.root.leaves.any fun p => p.comparator == .notEqual
  !single || unequal || (t.mainframe && t.root.containsLogic .range)

end SearchTree

end RecordCodec
