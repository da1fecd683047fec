import RecordCodec.Definition.Basic

/-!
Restricting a definition to some of its fields. A named structure keeps all that is in it; a group
that is not named keeps what is named in it, and goes when that is nothing.
-/
namespace RecordCodec

mutual

/-- What is left of a field when the fields with the short names `wanted` are asked for. -/
def FieldType.restrict? (wanted : List String) (t : FieldType) : Option FieldType :=
  match t with
  | { kind := kind, children := children, .. } =>
    if wanted.contains t.shortName then some t
    else
      match kind with
      | .group | .periodicGroup =>
        match restrictAll wanted children with
        | [] => none
        | kept => some { t with children := kept }
      | _ => none

def FieldType.restrictAll (wanted : List String) : List FieldType → List FieldType
  | [] => []
  | t :: rest =>
    match t.restrict? wanted with
    | some t => t :: restrictAll wanted rest
    | none => restrictAll wanted rest

end

namespace Definition

def shortNames (d : Definition) (names : List String) : Except FieldFault (List String) :=
  names.mapM fun name => (d.field name).map FieldType.shortName

def isWildcard (name : String) : Bool :=
  Text.trim name.toList == ['*']

def restrict (names : List String) (d : Definition) : Except FieldFault Definition :=
  if names.any isWildcard then .ok d.reset
  else do
    let wanted ← d.shortNames names
    let types := FieldType.restrictAll wanted d.types
    let index ← NameIndex.ofTypes types
    return reset { d with types, index }

end Definition

end RecordCodec
