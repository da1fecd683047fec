import RecordCodec.Value.Number

/-!
Unpacked decimal fields, kept as the bytes of a record.
-/
namespace RecordCodec.UnpackedField

variable [Libraries]

open Decimal

def zeroDigit (p : Place) : UInt8 :=
  Zoned.zeroDigit p.platform.zones

/-- The number in the layout of the field, as few bytes as possible of a variable one. -/
def encode (p : Place) (v : Int) : Except FieldFault (List UInt8) :=
  let length := if p.type.length = 0 then Zoned.lengthFor v else p.type.length
  match int64? v with
  | none => .error (p.outOfRange (Text.ofInt v))
  | some v => (Zoned.encode p.platform.zones length v).mapError fun _ =>
      p.outOfRange (Text.ofInt v)

/-- Bytes that decode, with zero digits in front of them up to the length of the field. -/
def layout (p : Place) (bytes : List UInt8) : Except FieldFault (List UInt8) :=
  let length := p.type.length
  if 0 < length ∧ length < bytes.length then
    .error (.bytesTooLong p.shortName bytes.length length)
  else
    match Zoned.decode p.platform.zones bytes with
    | .error _ => .error (p.mismatch (.bytes bytes))
    | .ok _ => .ok (List.replicate (length - bytes.length) (zeroDigit p) ++ bytes)

def assign (p : Place) (s : Scalar) : Except FieldFault (List UInt8) := do
  match s with
  | .bytes bytes => layout p bytes
  | s => encode p (← p.scaled s)

def number (p : Place) (bytes : List UInt8) : Except FieldFault Int :=
  (Zoned.decode p.platform.zones bytes).mapError .decimal

def text (p : Place) (bytes : List UInt8) : List Char :=
  match Zoned.decode p.platform.zones bytes with
  | .error _ => []
  | .ok v => showScaled p.type.fraction v

def emptyPayload (p : Place) : List UInt8 :=
  [zeroDigit p]

end RecordCodec.UnpackedField
