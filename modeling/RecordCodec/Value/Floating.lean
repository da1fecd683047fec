import RecordCodec.Value.Number

/-!
Floating point fields of four or eight bytes. The value is always a double; a field of four bytes
rounds it where its bytes or its text are asked for.
-/
namespace RecordCodec.FloatField

def width (wide : Bool) : Nat :=
  if wide then 8 else 4

def format (wide : Bool) : Ieee.Format :=
  if wide then Ieee.double else Ieee.single

def narrow (wide : Bool) (bits : UInt64) : Nat :=
  if wide then bits.toNat else Ieee.double.convert Ieee.single bits.toNat

def widen (wide : Bool) (bits : Nat) : UInt64 :=
  if wide then bits.toUInt64 else (Ieee.single.convert Ieee.double bits).toUInt64

def encode (order : ByteOrder) (wide : Bool) (bits : UInt64) : List UInt8 :=
  order.encode (width wide) (narrow wide bits)

def exceedsSingle (bits : UInt64) : Bool :=
  match Ieee.double.decode bits.toNat, Ieee.single.decode (Ieee.single.infinity - 1) with
  | .finite _ m e, .finite _ m' e' =>
    let (n, d) := Ieee.Datum.magnitude m e
    let (n', d') := Ieee.Datum.magnitude m' e'
    n' * d < n * d'
  | _, _ => false

def toDouble (p : Place) (wide : Bool) (s : Scalar) : Except FieldFault UInt64 :=
  match s with
  | .int v => .ok (Ieee.double.ofInt v.toInt).toUInt64
  | .uint v => .ok (Ieee.double.ofInt v.toNat).toUInt64
  | .float bits => .ok bits
  | .text t =>
    match Ieee.double.read? (Text.trim t) with
    | some bits => .ok bits.toUInt64
    | none => .error (p.mismatch s)
  | .bytes bytes =>
    if bytes.length = width wide then .ok (widen wide (p.platform.byteOrder.decode bytes))
    else .error (.bytesTooLong p.shortName bytes.length (width wide))

def assign (p : Place) (wide : Bool) (s : Scalar) : Except FieldFault UInt64 := do
  let bits ← toDouble p wide s
  if !wide && exceedsSingle bits then throw (p.outOfRange (Scalar.floatText bits))
  return bits

def text (wide : Bool) (bits : UInt64) : List Char :=
  (format wide).show (narrow wide bits)

/-- The integer that a double is, cut to sixteen bytes; infinities and NaN count as fractions. -/
def integer (p : Place) (bits : UInt64) : Except FieldFault Int :=
  match (Ieee.double.decode bits.toNat).integer? with
  | some v => .ok (max int128Min (min int128Max v))
  | none => .error (.fractional p.shortName)

end RecordCodec.FloatField
