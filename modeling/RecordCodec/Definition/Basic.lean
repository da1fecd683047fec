import RecordCodec.Value.Path

/-!
Field definitions: the fields of a record in order, an index of their names at every depth, and one
value for each top-level field.
-/
namespace RecordCodec

variable [Libraries]

abbrev NameIndex := List (String × FieldType)

namespace NameIndex

/-- Adds a field under its short name, which must be free, and under its long name unless that is
taken. The element of a multiple-value field shares its name with the field and is left out. -/
def add (index : NameIndex) (t : FieldType) : Except FieldFault NameIndex :=
  if t.hasFlag .multipleElement then .ok index
  else if (index.lookup t.shortName).isSome then .error (.duplicateField t.shortName)
  else
    let index := (t.shortName, t) :: index
    if (index.lookup t.name).isSome then .ok index else .ok ((t.name, t) :: index)

mutual

def addDeep (index : NameIndex) (t : FieldType) : Except FieldFault NameIndex :=
  match t with
  | { kind := kind, children := children, .. } => do
    let index ← index.add t
    if kind = .superDescriptor then return index else addAll index children

def addAll (index : NameIndex) (types : List FieldType) : Except FieldFault NameIndex :=
  match types with
  | [] => .ok index
  | t :: rest => do
    let index ← addDeep index t
    addAll index rest

end

def ofTypes (types : List FieldType) : Except FieldFault NameIndex :=
  addAll [] types

end NameIndex

structure Definition where
  platform : Platform
  /-- The top-level fields in record order. -/
  types : List FieldType
  index : NameIndex
  /-- One value for each top-level field. -/
  values : List Value

namespace Definition

def reset (d : Definition) : Definition :=
  { d with values := d.types.map (FieldType.fresh d.platform) }

def ofTypes (platform : Platform) (types : List FieldType) : Except FieldFault Definition := do
  let index ← NameIndex.ofTypes types
  return reset ⟨platform, types, index, []⟩

def field (d : Definition) (name : String) : Except FieldFault FieldType :=
  let name := String.ofList (Text.trim name.toList)
  match d.index.lookup name with
  | some t => .ok t
  | none => .error (.fieldNotFound name)

def value? (d : Definition) (name : String) : Option Value :=
  Value.findInMembers? name d.values

/-- Changes the first value with a short or long name; the other result of the change comes
along. -/
def modifyValue? {α : Type} (d : Definition) (name : String) (change : Value → α × Value) :
    Option (α × Definition) :=
  (Value.modifyInMembers? name change d.values).map fun (a, values) => (a, { d with values })

def assign (d : Definition) (name : String) (s : Scalar) : Except FieldFault Definition :=
  let change (v : Value) : Except FieldFault Unit × Value :=
    match v.assign s with
    | .ok v' => (.ok (), v')
    | .error fault => (.error fault, v)
  match d.modifyValue? name change with
  | none => .error (.fieldNotFound name)
  | some (.ok _, d') => .ok d'
  | some (.error fault, _) => .error fault

end Definition

end RecordCodec
