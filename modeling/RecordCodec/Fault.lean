import RecordCodec.Bytes.Queue
import RecordCodec.Charset.Basic
import RecordCodec.Decimal.Digits

/-!
Everything that can go wrong with fields, records and searches. Each cause has a stable code, which
also starts its text.
-/
namespace RecordCodec

/-- The number types that a value can be asked for. -/
inductive NumberTarget where
  | int64
  | uint64
  | float64
  deriving DecidableEq, Repr

def NumberTarget.name : NumberTarget → String
  | int64 => "i64"
  | uint64 => "u64"
  | float64 => "f64"

/-- What is wrong with a literal of a search expression. -/
inductive LiteralFault where
  | unterminatedString
  | unknownPlaceholder
  | unterminatedPlaceholder
  | badHexRun
  | unterminatedCount
  | badCount
  | tooLong
  | numberTooLarge
  | unexpectedCharacter
  deriving DecidableEq, Repr

def LiteralFault.message : LiteralFault → String
  | unterminatedString => "unterminated string"
  | unknownPlaceholder => "unknown constant placeholder"
  | unterminatedPlaceholder => "unterminated placeholder"
  | badHexRun => "bad hex run"
  | unterminatedCount => "unterminated repeat count"
  | badCount => "bad repeat count"
  | tooLong => "repeat count too large"
  | numberTooLarge => "number too large"
  | unexpectedCharacter => "unexpected character"

inductive FieldFault where
  | readOnly (field : String)
  | shortBuffer (shortage : Shortage)
  | fieldNotFound (name : String)
  | lobLength (field : String) (expected actual : Nat)
  | outOfRange (field value : String) (length : Nat)
  | bytesTooLong (field : String) (actual length : Nat)
  | textTooLong (field : String) (actual length : Nat)
  | negativeUnsigned (field value : String)
  | typeMismatch (field input : String)
  | unknownFormat (format : Char) (length : Nat)
  | notNumeric (field : String) (target : NumberTarget)
  | invalidMoment (field input : String)
  | decimal (fault : Decimal.Fault)
  | charset (fault : Charset.Fault)
  | fractional (field : String)
  | partialLength (field : String) (expected actual : Nat)
  | invalidComparator (expression : String)
  | invalidLiteral (literal : String) (reason : LiteralFault)
  | variableParent (descriptor parent : String)
  | duplicateField (name : String)
  deriving DecidableEq, Repr

namespace FieldFault

def code : FieldFault → Nat
  | readOnly .. => 37
  | shortBuffer .. => 38
  | fieldNotFound .. => 42
  | lobLength .. => 56
  | outOfRange .. => 57
  | bytesTooLong .. => 59
  | textTooLong .. => 77
  | negativeUnsigned .. => 101
  | typeMismatch .. => 103
  | unknownFormat .. => 103
  | notNumeric .. => 105
  | invalidMoment .. => 106
  | decimal .. => 108
  | charset .. => 108
  | fractional .. => 112
  | partialLength .. => 135
  | invalidComparator .. => 170
  | invalidLiteral .. => 171
  | variableParent .. => 172
  | duplicateField .. => 173

def detail : FieldFault → String
  | readOnly field => s!"field '{field}' is read-only"
  | shortBuffer s => s!"buffer too short, need {s.requested} bytes but {s.remaining} remain"
  | fieldNotFound name => s!"no field {name} found in file definition"
  | lobLength field expected actual =>
    s!"LOB field '{field}' announced {expected} bytes but received {actual}"
  | outOfRange field value length =>
    s!"value {value} out of range for field '{field}' of length {length}"
  | bytesTooLong field actual length =>
    s!"{actual} bytes exceed length {length} of field '{field}'"
  | textTooLong field actual length =>
    s!"string of {actual} bytes exceeds length {length} of field '{field}'"
  | negativeUnsigned field value => s!"negative value {value} for unsigned field '{field}'"
  | typeMismatch field input => s!"input {input} not valid for field '{field}'"
  | unknownFormat format length => s!"unknown format '{format}' with length {length}"
  | notNumeric field target => s!"field '{field}' cannot be converted to {target.name}"
  | invalidMoment field input => s!"invalid date/time '{input}' for field '{field}'"
  | decimal fault => fault.message
  | charset fault => fault.message
  | fractional field => s!"field '{field}' has fractional digits, integer access not possible"
  | partialLength field expected actual =>
    s!"partial range of field '{field}' expects {expected} bytes, got {actual}"
  | invalidComparator expression =>
    s!"invalid comparator in search expression '{expression}'"
  | invalidLiteral literal reason => s!"invalid literal '{literal}': {reason.message}"
  | variableParent descriptor parent =>
    s!"parent '{parent}' of super-descriptor '{descriptor}' is variable length"
  | duplicateField name => s!"duplicate field '{name}' in definition"

def message (fault : FieldFault) : String :=
  "ADG" ++ String.ofList (Text.padZeros 7 (Text.ofNat fault.code)) ++ ": " ++ fault.detail

end FieldFault

end RecordCodec
