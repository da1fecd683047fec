import RecordCodec.Value.Leaf

/-!
Values with parts. A group has one element, which is the values of its fields; a periodic group and
a multiple-value field have one element for each occurrence.
-/
namespace RecordCodec

variable [Libraries]

inductive Value where
  | leaf (l : Leaf)
  | node (place : Place) (elements : List (List Value))
  deriving Repr

def Place.elementIndexes (p : Place) (index : Nat) : Nat × Nat :=
  match p.type.kind with
  | .periodicGroup => (index, 0)
  | .multiple => (p.periodicIndex, index)
  | _ => (p.periodicIndex, 0)

mutual

def FieldType.freshAt (platform : Platform) (periodicIndex multipleIndex : Nat) (t : FieldType) :
    Value :=
  match t with
  | { kind := kind, children := children, .. } =>
    let place : Place := ⟨t, platform, periodicIndex, multipleIndex⟩
    match kind with
    | .group => .node place [freshMembers platform periodicIndex 0 children]
    | .periodicGroup | .multiple => .node place []
    | _ => .leaf (.fresh place)

def FieldType.freshMembers (platform : Platform) (periodicIndex multipleIndex : Nat) :
    List FieldType → List Value
  | [] => []
  | t :: rest =>
    t.freshAt platform periodicIndex multipleIndex ::
      freshMembers platform periodicIndex multipleIndex rest

end

def FieldType.fresh (platform : Platform) (t : FieldType) : Value :=
  t.freshAt platform 0 0

def Place.freshElement (p : Place) (index : Nat) : List Value :=
  let (periodicIndex, multipleIndex) := p.elementIndexes index
  FieldType.freshMembers p.platform periodicIndex multipleIndex p.type.children

namespace Value

def place : Value → Place
  | leaf l => l.place
  | node p _ => p

def type (v : Value) : FieldType :=
  v.place.type

def shortName (v : Value) : String :=
  v.place.shortName

def elements? : Value → Option (List (List Value))
  | leaf _ => none
  | node _ elements => some elements

def bytes : Value → List UInt8
  | leaf l => l.bytes
  | node _ _ => []

mutual

/-- The text of a value. Fields of an element have commas between them; occurrences have semicolons
between them and brackets around them. -/
def text : Value → List Char
  | leaf l => l.text
  | node p elements =>
    let texts := elementTexts elements
    if p.type.kind.isRepeated then '[' :: Text.join [';'] texts ++ [']'] else texts.flatten

def elementTexts : List (List Value) → List (List Char)
  | [] => []
  | element :: rest => Text.join [','] (memberTexts element) :: elementTexts rest

def memberTexts : List Value → List (List Char)
  | [] => []
  | v :: rest => v.text :: memberTexts rest

end

def assign (v : Value) (s : Scalar) : Except FieldFault Value :=
  match v with
  | leaf l => (l.assign s).map leaf
  | node p _ => .error (p.mismatch s)

def assignOperand (v : Value) (s : Scalar) : Except FieldFault Value :=
  match v with
  | leaf l => (l.assignOperand s).map leaf
  | node p _ => .error (p.mismatch s)

def number {α : Type} (read : Leaf → Except FieldFault α) (target : NumberTarget) (v : Value) :
    Except FieldFault α :=
  match v with
  | leaf l => read l
  | node p _ => .error (p.notNumeric target)

def int64 (v : Value) : Except FieldFault Int :=
  v.number Leaf.int64 .int64

def uint64 (v : Value) : Except FieldFault Int :=
  v.number Leaf.uint64 .uint64

def float64 (v : Value) : Except FieldFault UInt64 :=
  v.number Leaf.float64 .float64

def narrow (v : Value) (width : Nat) (low high n : Int) : Except FieldFault Int :=
  if low ≤ n ∧ n ≤ high then .ok n
  else .error (.outOfRange v.shortName (String.ofList (Text.ofInt n)) width)

def signedNumber (v : Value) (width : BinaryWidth) : Except FieldFault Int := do
  let n ← v.int64
  v.narrow width.bytes (IntegerField.low width true) (IntegerField.high width true) n

def unsignedNumber (v : Value) (width : BinaryWidth) : Except FieldFault Int := do
  let n ← v.uint64
  v.narrow width.bytes (IntegerField.low width false) (IntegerField.high width false) n

/-- The number of an element that is added behind `k` others, a word of four bytes. -/
def addedNumber (k : Nat) : Nat :=
  (k + 1) % UInt32.size

def growTo (p : Place) (index : Nat) (elements : List (List Value)) : List (List Value) :=
  elements ++ (List.range' elements.length (index - elements.length)).map fun k =>
    p.freshElement (addedNumber k)

/-- The elements of a structure with occurrence `index` among them; a group has one element
whatever the index. -/
def withOccurrence (index : Nat) : Value → Value
  | leaf l => leaf l
  | node p elements =>
    if p.type.kind.isRepeated then node p (growTo p (max index 1) elements) else node p elements

def occurrencePosition (p : Place) (index : Nat) : Nat :=
  if p.type.kind.isRepeated then max index 1 - 1 else 0

/-- Adds an element whose first value takes the scalar; a refused scalar adds nothing. -/
def push (v : Value) (s : Scalar) : Except FieldFault Value :=
  match v with
  | leaf l => .error (l.place.mismatch s)
  | node p elements =>
    match p.freshElement (addedNumber elements.length) with
    | [] => .ok (node p (elements ++ [[]]))
    | first :: rest => (first.assign s).map fun first => node p (elements ++ [first :: rest])

end Value

end RecordCodec
