import RecordCodec.Definition.Basic

/-!
Super-descriptors from the fields that they are made of.
-/
namespace RecordCodec

def SuperEntry.bytes (e : SuperEntry) (descriptor : String) (lookup : String → Option Value) :
    Except FieldFault (List UInt8) :=
  match lookup e.parent with
  | none => .error (.fieldNotFound e.parent)
  | some parent =>
    let bytes := parent.bytes
    if parent.type.isVariable then .error (.variableParent descriptor e.parent)
    else if e.first = 0 ∨ e.last < e.first ∨ bytes.length < e.last then
      .error (.shortBuffer ⟨e.last, bytes.length⟩)
    else .ok ((bytes.drop (e.first - 1)).take e.extent)

def FieldType.compose (t : FieldType) (lookup : String → Option Value) :
    Except FieldFault (List UInt8) :=
  (t.superEntries.mapM fun (e : SuperEntry) => e.bytes t.shortName lookup).map List.flatten

def Value.superDescriptor? : Value → Option Leaf
  | .leaf l =>
    match l.content with
    | .superDescriptor _ => some l
    | _ => none
  | .node _ _ => none

namespace Definition

/-- Composes the super-descriptors in `rest`, which stand behind `before`, from the values as they
are by then. -/
def deriveFrom (before : List Value) : List Value → List Value × Except FieldFault Unit
  | [] => (before, .ok ())
  | v :: rest =>
    match v.superDescriptor? with
    | none => deriveFrom (before ++ [v]) rest
    | some l =>
      match l.place.type.compose fun name => Value.findInMembers? name (before ++ v :: rest) with
      | .error fault => (before ++ v :: rest, .error fault)
      | .ok bytes =>
        deriveFrom (before ++ [.leaf { l with content := .superDescriptor bytes }]) rest

def derive (d : Definition) : Definition × Except FieldFault Unit :=
  let (values, outcome) := deriveFrom [] d.values
  ({ d with values }, outcome)

def compose? (d : Definition) (name : String) : Option (Except FieldFault (List UInt8)) :=
  ((d.value? name).bind Value.superDescriptor?).map fun l => l.place.type.compose d.value?

end Definition

end RecordCodec
