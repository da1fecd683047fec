import RecordCodec.Field.Type
import RecordCodec.Platform
import RecordCodec.Request
import RecordCodec.Scalar

/-!
Where a value sits: its field, its platform and its occurrence numbers; and the format tokens and
faults that name it.
-/
namespace RecordCodec

structure Place where
  type : FieldType
  platform : Platform
  /-- The occurrence of the periodic group, counted from one; zero outside of one. -/
  periodicIndex : Nat
  /-- The occurrence of the multiple-value field, counted from one; zero outside of one. -/
  multipleIndex : Nat
  deriving Repr

namespace Place

def top (type : FieldType) (platform : Platform) : Place :=
  ⟨type, platform, 0, 0⟩

def shortName (p : Place) : String :=
  p.type.shortName

def indexText (p : Place) : String :=
  match p.periodicIndex, p.multipleIndex with
  | 0, 0 => ""
  | i, 0 => toString i
  | 0, i => toString i
  | i, j => s!"{i}({j})"

def tokenText (p : Place) : String :=
  s!"{p.shortName}{p.indexText},{p.type.length},{p.type.formatChar}"

def partText (p : Place) (first length : Nat) : String :=
  s!"{p.shortName}{p.indexText}({first},{length})"

def part (p : Place) (first length : Nat) : Token :=
  ⟨p.partText first length, length⟩

def reservedLength (p : Place) : Nat :=
  if p.type.length = 0 then p.type.kind.variableReadLength else p.type.length

def wholeToken? (p : Place) (r : Request) : Option Token :=
  if r.isFollowUp then none else some ⟨p.tokenText, p.reservedLength⟩

def mismatch (p : Place) (s : Scalar) : FieldFault :=
  .typeMismatch p.shortName s.describe

def notNumeric (p : Place) (target : NumberTarget) : FieldFault :=
  .notNumeric p.shortName target

def outOfRange (p : Place) (value : List Char) : FieldFault :=
  .outOfRange p.shortName (String.ofList value) p.type.length

end Place

end RecordCodec
