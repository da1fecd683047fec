import RecordCodec.Value.Tree

/-!
The format tokens of a value. In a store every value of a repeated field has its own token; in a
read a repeated field has one, which names its count and its occurrences.
-/
namespace RecordCodec

def Place.repeatedToken (p : Place) (r : Request) : Token :=
  let name := p.shortName
  match p.type.occurrence, p.type.element? with
  | .index i, some element => ⟨s!"{name}{i},{element.length},{element.formatChar}", element.length⟩
  | .index i, none => ⟨s!"{name}{i}", r.multipleSize⟩
  | occurrence, some element =>
    ⟨s!"{name}C,4,{name}{occurrence.suffix},{element.length},{element.formatChar}", r.multipleSize⟩
  | occurrence, none => ⟨s!"{name}C,4,{name}{occurrence.suffix}", r.multipleSize⟩

namespace Value

mutual

def tokens (r : Request) : Value → List Token
  | leaf l => (l.token? r).toList
  | node p elements =>
    if p.type.kind.isRepeated && r.isFollowUp then []
    else if p.type.kind.isRepeated && !r.store then [p.repeatedToken r]
    else elementTokens r elements

def elementTokens (r : Request) : List (List Value) → List Token
  | [] => []
  | element :: rest => memberTokens r element ++ elementTokens r rest

/-- The tokens of the values in a structure; a store leaves out those that are read-only. -/
def memberTokens (r : Request) : List Value → List Token
  | [] => []
  | v :: rest =>
    if r.store && v.type.isReadOnly then memberTokens r rest else v.tokens r ++ memberTokens r rest

end

end Value

end RecordCodec
