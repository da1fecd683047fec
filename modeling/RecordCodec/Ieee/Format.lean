/-!
Binary floating point by exact integer arithmetic. A datum is a bit pattern; finite ones stand for
`mantissa * 2 ^ exponent` and a result is the pattern nearest to the exact quotient of two naturals,
ties to the even one.
-/
namespace RecordCodec.Ieee

/-- The widths of the two fields behind the sign bit. -/
structure Format where
  fractionBits : Nat
  exponentBits : Nat
  deriving DecidableEq, Repr

def single : Format := ⟨23, 8⟩

def double : Format := ⟨52, 11⟩

inductive Datum where
  | nan (negative : Bool) (payload : Nat)
  | infinite (negative : Bool)
  | finite (negative : Bool) (mantissa : Nat) (exponent : Int)
  deriving DecidableEq, Repr

namespace Format

def minExponent (f : Format) : Int :=
  2 - Nat.pow 2 (f.exponentBits - 1) - f.fractionBits

def infinity (f : Format) : Nat :=
  (Nat.pow 2 f.exponentBits - 1) * Nat.pow 2 f.fractionBits

def signBit (f : Format) (negative : Bool) : Nat :=
  if negative then Nat.pow 2 (f.exponentBits + f.fractionBits) else 0

def quietBit (f : Format) : Nat :=
  Nat.pow 2 (f.fractionBits - 1)

def decode (f : Format) (bits : Nat) : Datum :=
  let negative := bits / Nat.pow 2 (f.exponentBits + f.fractionBits) % 2 == 1
  let exponent := bits / Nat.pow 2 f.fractionBits % Nat.pow 2 f.exponentBits
  let fraction := bits % Nat.pow 2 f.fractionBits
  if exponent = Nat.pow 2 f.exponentBits - 1 then
    if fraction = 0 then .infinite negative else .nan negative fraction
  else if exponent = 0 then .finite negative fraction f.minExponent
  else .finite negative (fraction + Nat.pow 2 f.fractionBits) (f.minExponent + exponent - 1)

def roundHalfEven (n d : Nat) : Nat :=
  let q := n / d
  let r := n % d
  if d < 2 * r ∨ (2 * r = d ∧ q % 2 = 1) then q + 1 else q

def unscale (n d : Nat) (e : Int) : Nat × Nat :=
  if 0 ≤ e then (n, d * Nat.pow 2 e.toNat) else (n * Nat.pow 2 (-e).toNat, d)

def floorLog2 (n d : Nat) : Int :=
  let guess : Int := (n.log2 : Int) - d.log2
  let (n', d') := unscale n d guess
  if n' < d' then guess - 1 else guess

def nearest (f : Format) (negative : Bool) (n d : Nat) : Nat :=
  if n = 0 then f.signBit negative
  else
    let e := max f.minExponent (floorLog2 n d - f.fractionBits)
    let (n', d') := unscale n d e
    let magnitude := (e - f.minExponent).toNat * Nat.pow 2 f.fractionBits + roundHalfEven n' d'
    f.signBit negative + min magnitude f.infinity

def nearestScaled (f : Format) (negative : Bool) (mantissa : Nat) (exponent : Int) : Nat :=
  if 0 ≤ exponent then f.nearest negative (mantissa * Nat.pow 2 exponent.toNat) 1
  else f.nearest negative mantissa (Nat.pow 2 (-exponent).toNat)

def ofInt (f : Format) (v : Int) : Nat :=
  f.nearest (v < 0) v.natAbs 1

/-- A quiet NaN with as much of a payload of `width` bits as fits, from its highest bit on. -/
def ofPayload (f : Format) (negative : Bool) (width payload : Nat) : Nat :=
  let kept := payload * Nat.pow 2 f.fractionBits / Nat.pow 2 width
  f.signBit negative + f.infinity + (kept ||| f.quietBit)

def convert (source target : Format) (bits : Nat) : Nat :=
  match source.decode bits with
  | .nan negative payload => target.ofPayload negative source.fractionBits payload
  | .infinite negative => target.signBit negative + target.infinity
  | .finite negative m e => target.nearestScaled negative m e

end Format

namespace Datum

def isFinite : Datum → Bool
  | .finite .. => true
  | _ => false

def magnitude (m : Nat) (e : Int) : Nat × Nat :=
  if 0 ≤ e then (m * Nat.pow 2 e.toNat, 1) else (m, Nat.pow 2 (-e).toNat)

def integer? : Datum → Option Int
  | .finite negative m e =>
    let (n, d) := magnitude m e
    if n % d = 0 then some (if negative then -((n / d : Nat) : Int) else (n / d : Nat)) else none
  | _ => none

end Datum

end RecordCodec.Ieee
