import RecordCodec.Value.Number

/-!
Raw byte fields. A fixed field is filled up with zeros; a variable one has a length header of one
byte. A number takes the place of the bytes that it has in the byte order of the platform.
-/
namespace RecordCodec.OctetField

def maxVariable : Nat := 253

def layout (p : Place) (bytes : List UInt8) : Except FieldFault (List UInt8) :=
  let length := p.type.length
  let limit := if length = 0 then maxVariable else length
  if limit < bytes.length then .error (.bytesTooLong p.shortName bytes.length length)
  else .ok (bytes ++ List.replicate (length - bytes.length) 0)

/-- The number in the layout of the field, eight bytes of a variable one; `shown` is its text in a
fault. -/
def layoutNumber (p : Place) (n : Nat) (shown : List Char) : Except FieldFault (List UInt8) :=
  let length := if p.type.length = 0 then 8 else p.type.length
  if length < 8 ∧ Bytes.capacity length ≤ n then .error (p.outOfRange shown)
  else .ok (p.platform.byteOrder.encode length n)

def hexDigits? (s : List Char) : Option (List Char) :=
  (Text.afterLead? ['0', 'x'] s).or (Text.afterLead? ['0', 'X'] s)

def assignText (p : Place) (s : List Char) : Except FieldFault (List UInt8) :=
  let trimmed := Text.trim s
  match hexDigits? trimmed with
  | some digits =>
    match Hex.decode? digits with
    | some bytes => layout p bytes
    | none => .error (p.mismatch (.text s))
  | none =>
    match Text.readNatUpTo? (UInt64.size - 1) trimmed with
    | some n => layoutNumber p n s
    | none => layout p (Utf8.encode trimmed)

def assign (p : Place) (s : Scalar) : Except FieldFault (List UInt8) :=
  match s with
  | .bytes bytes => layout p bytes
  | .text t => assignText p t
  | .uint n => layoutNumber p n.toNat (Text.ofNat n.toNat)
  | .int v =>
    if 0 ≤ v.toInt then layoutNumber p v.toInt.toNat (Text.ofInt v.toInt)
    else .error (p.mismatch s)
  | .float _ => .error (p.mismatch s)

def text (bytes : List UInt8) : List Char :=
  '0' :: 'x' :: Hex.encode bytes

def number (p : Place) (bytes : List UInt8) : Except FieldFault Int :=
  if 8 < bytes.length then .error (p.notNumeric .uint64)
  else .ok (p.platform.byteOrder.decode bytes)

end RecordCodec.OctetField
