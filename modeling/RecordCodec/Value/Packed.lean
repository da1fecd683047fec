import RecordCodec.Calendar
import RecordCodec.Value.Number

/-!
Packed decimal fields, kept as the bytes of a record: plain numbers, day numbers and ticks.
-/
namespace RecordCodec.PackedField

variable [Libraries]

open Decimal

/-- The digits that a field of a declared length is taken to hold, a word of four bytes. -/
def digitCapacity (p : Place) : Nat :=
  (2 * p.type.length - 1) % UInt32.size

/-- Whether a number has more digits than a field of a declared length is taken to hold. Nineteen
digits are enough for every number. -/
def exceeds (p : Place) (v : Int) : Bool :=
  p.type.length != 0 && digitCapacity p < 19 && Nat.pow 10 (digitCapacity p) ≤ v.natAbs

/-- The number in the layout of the field, as few bytes as possible of a variable one. -/
def encode (p : Place) (v : Int) : Except FieldFault (List UInt8) :=
  let length := if p.type.length = 0 then Packed.lengthFor v else p.type.length
  match int64? v with
  | none => .error (p.outOfRange (Text.ofInt v))
  | some v =>
    let encoded :=
      if exceeds p v then .error (Packed.overflow length v)
      else Packed.encode p.platform.packedSigns length v
    encoded.mapError fun _ => p.outOfRange (Text.ofInt v)

def readText (p : Place) (content : PackedContent) (s : List Char) : Except FieldFault Int :=
  let moment? (read? : List Char → Option Int) : Except FieldFault Int :=
    match (read? s).or (Text.readIntBetween? int64Min int64Max (Text.trim s)) with
    | some v => .ok v
    | none => .error (.invalidMoment p.shortName (String.ofList s))
  match content with
  | .number => p.readScaled s
  | .date => moment? Calendar.readDate?
  | .time => moment? Calendar.readTime?

def layout (p : Place) (bytes : List UInt8) : Except FieldFault (List UInt8) :=
  let length := p.type.length
  if 0 < length ∧ length < bytes.length then
    .error (.bytesTooLong p.shortName bytes.length length)
  else
    match Packed.decode bytes with
    | .error _ => .error (p.mismatch (.bytes bytes))
    | .ok _ => .ok (List.replicate (length - bytes.length) 0 ++ bytes)

def assign (p : Place) (content : PackedContent) (s : Scalar) : Except FieldFault (List UInt8) := do
  match s with
  | .bytes bytes => layout p bytes
  | .text t => encode p (← readText p content t)
  | s => encode p (← p.scaled s)

def number (bytes : List UInt8) : Except FieldFault Int :=
  (Packed.decode bytes).mapError .decimal

def text (p : Place) (content : PackedContent) (bytes : List UInt8) : List Char :=
  match Packed.decode bytes with
  | .error _ => []
  | .ok v =>
    match content with
    | .number => showScaled p.type.fraction v
    | .date => Calendar.showDate v
    | .time => Calendar.showTime v

def emptyPayload (p : Place) : List UInt8 :=
  [p.platform.packedSigns.positive]

end RecordCodec.PackedField
