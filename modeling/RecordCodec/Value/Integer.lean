import RecordCodec.Value.Number

/-!
Binary integers of 1, 2, 4 or 8 bytes. The number is kept as it is; byte order matters only where
bytes are written or read.
-/
namespace RecordCodec.IntegerField

variable [Libraries]

def low (width : BinaryWidth) (signed : Bool) : Int :=
  if signed then -(Bytes.capacity width.bytes / 2 : Nat) else 0

def high (width : BinaryWidth) (signed : Bool) : Int :=
  (if signed then Bytes.capacity width.bytes / 2 else Bytes.capacity width.bytes : Nat) - 1

def check (p : Place) (width : BinaryWidth) (signed : Bool) (v : Int) : Except FieldFault Int :=
  if v < 0 ∧ signed = false then
    .error (.negativeUnsigned p.shortName (String.ofList (Text.ofInt v)))
  else p.within (low width signed) (high width signed) v

def ofNat (width : BinaryWidth) (signed : Bool) (n : Nat) : Int :=
  if signed then signedOf width.bytes n else n

def encode (order : ByteOrder) (width : BinaryWidth) (v : Int) : List UInt8 :=
  order.encode width.bytes (unsignedOf width.bytes v)

def ofBytes (p : Place) (width : BinaryWidth) (signed : Bool) (bytes : List UInt8) :
    Except FieldFault Int :=
  if width.bytes < bytes.length then
    .error (.bytesTooLong p.shortName bytes.length width.bytes)
  else .ok (ofNat width signed (p.platform.byteOrder.decode bytes))

def assign (p : Place) (width : BinaryWidth) (signed : Bool) (s : Scalar) :
    Except FieldFault Int := do
  let v ← match s with
    | .bytes bytes => ofBytes p width signed bytes
    | s => p.scaled s
  check p width signed v

def read (width : BinaryWidth) (signed : Bool) (q : ByteQueue) :
    Except Shortage (Int × ByteQueue) := do
  let (n, q') ← q.takeNat width.bytes
  return (ofNat width signed n, q')

end RecordCodec.IntegerField
