import RecordCodec.Value.Tree

/-!
Finding a value inside another one and changing it where it stands. A value is found by its short or
long name, the outermost and first one where several have it.
-/
namespace RecordCodec.Value

def isNamed (name : String) (v : Value) : Bool :=
  v.type.shortName == name || v.type.name == name

mutual

def find? (name : String) (v : Value) : Option Value :=
  if v.isNamed name then some v
  else
    match v with
    | leaf _ => none
    | node _ elements => findInElements? name elements

def findInElements? (name : String) : List (List Value) → Option Value
  | [] => none
  | element :: rest => (findInMembers? name element).or (findInElements? name rest)

def findInMembers? (name : String) : List Value → Option Value
  | [] => none
  | v :: rest => (v.find? name).or (findInMembers? name rest)

end

mutual

def modifyNamed? {α : Type} (name : String) (change : Value → α × Value) (v : Value) :
    Option (α × Value) :=
  if v.isNamed name then some (change v)
  else
    match v with
    | leaf _ => none
    | node p elements =>
      (modifyInElements? name change elements).map fun (a, elements) => (a, node p elements)

def modifyInElements? {α : Type} (name : String) (change : Value → α × Value) :
    List (List Value) → Option (α × List (List Value))
  | [] => none
  | element :: rest =>
    match modifyInMembers? name change element with
    | some (a, element) => some (a, element :: rest)
    | none => (modifyInElements? name change rest).map fun (a, rest) => (a, element :: rest)

def modifyInMembers? {α : Type} (name : String) (change : Value → α × Value) :
    List Value → Option (α × List Value)
  | [] => none
  | v :: rest =>
    match v.modifyNamed? name change with
    | some (a, v) => some (a, v :: rest)
    | none => (modifyInMembers? name change rest).map fun (a, rest) => (a, v :: rest)

end

def modifyPosition? {α β : Type} (change : β → α × β) : Nat → List β → Option (α × List β)
  | _, [] => none
  | 0, b :: rest => let (a, b) := change b; some (a, b :: rest)
  | i + 1, b :: rest => (modifyPosition? change i rest).map fun (a, rest) => (a, b :: rest)

inductive PathStep where
  | named (name : String)
  /-- Value number `position`, counted from zero, of an occurrence, counted from one. -/
  | member (occurrence position : Nat)
  deriving DecidableEq, Repr

/-- Changes the value at the end of a path. Occurrences on the way are created, and stay even if the
path leads nowhere. -/
def modifyAt {α : Type} (change : Value → α × Value) : List PathStep → Value → Option α × Value
  | [], v => let (a, v) := change v; (some a, v)
  | .named name :: rest, v =>
    match v.modifyNamed? name (modifyAt change rest) with
    | some (a, v) => (a, v)
    | none => (none, v)
  | .member occurrence position :: rest, v =>
    match v.withOccurrence occurrence with
    | leaf l => (none, leaf l)
    | node p elements =>
      let changeElement (element : List Value) : Option α × List Value :=
        match modifyPosition? (modifyAt change rest) position element with
        | some (a, element) => (a, element)
        | none => (none, element)
      match modifyPosition? changeElement (occurrencePosition p occurrence) elements with
      | some (a, elements) => (a, node p elements)
      | none => (none, node p elements)

end RecordCodec.Value
