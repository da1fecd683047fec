import RecordCodec.Decimal.Scaled
import RecordCodec.Ieee.Literal
import RecordCodec.Value.Place

/-!
Numbers of decimal and binary fields. A field with fractional digits keeps its number multiplied by
the power of ten; here scalars become such integers and such integers become numbers again.
-/
namespace RecordCodec

variable [Libraries]

def integerTolerance : Nat × Nat :=
  match Ieee.double.decode 0x3E112E0BE826D695 with
  | .finite _ m e => Ieee.Datum.magnitude m e
  | _ => (0, 1)

def scaleDouble (unit : Int) (bits : UInt64) : Ieee.Datum :=
  match Ieee.double.decode bits.toNat, Ieee.double.decode (Ieee.double.ofInt unit) with
  | .finite negative m e, .finite negative' m' e' =>
    Ieee.double.decode (Ieee.double.nearestScaled (negative != negative') (m * m') (e + e'))
  | d, _ => d

/-- The integer nearest to a double times `unit`, a half away from zero, if the product is as good
as an integer and sixteen bytes hold it. -/
def scaledOfDouble? (unit : Int) (bits : UInt64) : Option Int :=
  match scaleDouble unit bits with
  | .finite negative m e =>
    let (n, d) := Ieee.Datum.magnitude m e
    let rounded := (2 * n + d) / (2 * d)
    let distance := max (n - rounded * d) (rounded * d - n)
    let (tn, td) := integerTolerance
    if distance * td > tn * d ∨ int128Max < (n / d : Nat) then none
    else some (if negative then -(rounded : Int) else rounded)
  | _ => none

namespace Place

/-- The scaled integer of the number one: the power of ten in sixteen bytes, which hold it up to 38
digits. -/
def unit (p : Place) : Int :=
  wrap128 (Nat.pow 10 p.type.fraction)

def readScaled (p : Place) (s : List Char) : Except FieldFault Int :=
  match Decimal.readScaled? p.type.fraction s with
  | some v => .ok v
  | none => .error (p.mismatch (.text s))

/-- The scaled integer of a scalar that is not raw bytes. Products have sixteen bytes. -/
def scaled (p : Place) (s : Scalar) : Except FieldFault Int :=
  match s with
  | .int v => .ok (wrap128 (v.toInt * p.unit))
  | .uint v => .ok (wrap128 (v.toNat * p.unit))
  | .float bits =>
    match scaledOfDouble? p.unit bits with
    | some v => .ok v
    | none => .error (p.mismatch s)
  | .text t => p.readScaled t
  | .bytes _ => .error (p.mismatch s)

def unscaled (p : Place) (raw : Int) : Except FieldFault Int :=
  if raw % p.unit = 0 then .ok (raw / p.unit) else .error (.fractional p.shortName)

def within (p : Place) (low high v : Int) : Except FieldFault Int :=
  if low ≤ v ∧ v ≤ high then .ok v else .error (p.outOfRange (Text.ofInt v))

def toInt64 (p : Place) (v : Int) : Except FieldFault Int :=
  p.within int64Min int64Max v

def toUInt64 (p : Place) (v : Int) : Except FieldFault Int :=
  p.within 0 uint64Max v

/-- The double nearest to the quotient of the doubles nearest to a scaled integer and to the power
of ten. -/
def scaledToDouble (p : Place) (raw : Int) : UInt64 :=
  let numerator := Ieee.double.ofInt raw
  let denominator := Ieee.double.ofInt p.unit
  match Ieee.double.decode numerator, Ieee.double.decode denominator with
  | .finite negative m e, .finite negative' m' e' =>
    let (n, d) := Ieee.Datum.magnitude m e
    let (n', d') := Ieee.Datum.magnitude m' e'
    (Ieee.double.nearest (negative != negative') (n * d') (d * n')).toUInt64
  | _, _ => numerator.toUInt64

end Place

end RecordCodec
