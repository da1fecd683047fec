import RecordCodec.Decimal.Digits

/-!
Unpacked decimals: one digit a byte in the low half, a zone in the high half, and the sign in the
zone of the last byte. A number is negative when that zone is not the zone of the digits.
-/
namespace RecordCodec.Decimal

/-- The zones that the unpacked encoder writes. -/
structure Zones where
  /-- The zone of every digit and of a positive last digit. -/
  digit : UInt8
  /-- The zone of the last digit of a negative number. -/
  negative : UInt8
  deriving DecidableEq, Repr

namespace Zones

def openSystem : Zones := ⟨0x3, 0x7⟩

def mainframe : Zones := ⟨0xF, 0xD⟩

end Zones

namespace Zoned

def lengthFor (v : Int) : Nat :=
  digitCount v.natAbs

def digitByte (zone : UInt8) (digit : Nat) : UInt8 :=
  zone <<< 4 ||| UInt8.ofNat digit

def digitBytes (zone : UInt8) : Nat → Nat → List UInt8
  | 0, _ => []
  | count + 1, n => digitBytes zone count (n / 10) ++ [digitByte zone (n % 10)]

/-- The byte of the last digit of `v`; a negative number keeps no more than the low half of what a
positive one has there. -/
def lastByte (zones : Zones) (v : Int) : UInt8 :=
  let positive := digitByte zones.digit (v.natAbs % 10)
  if v < 0 then zones.negative <<< 4 ||| (positive &&& 0x0F) else positive

def encode (zones : Zones) (length : Nat) (v : Int) : Except Fault (List UInt8) :=
  let digits := digitCount v.natAbs
  if length = 0 ∨ length < digits then .error (.overflow v digits length)
  else .ok (digitBytes zones.digit (length - 1) (v.natAbs / 10) ++ [lastByte zones v])

def zeroDigit (zones : Zones) : UInt8 :=
  zones.digit <<< 4

def digitOf (b : UInt8) : Nat :=
  b.toNat % 16

/-- The magnitude of the digits from byte `position` on of a field of `length` bytes, after digits
that denote `acc`. -/
def magnitudeFrom (length position acc : Nat) : List UInt8 → Except Fault Nat
  | [] => .ok acc
  | b :: rest =>
    if 9 < digitOf b then .error (.badDigit (digitOf b) position)
    else
      let acc := acc * 10 + digitOf b
      if int64Max < acc then .error (.overflow acc length 19)
      else magnitudeFrom length (position + 1) acc rest

def isNegative (zones : Zones) (bytes : List UInt8) : Bool :=
  match bytes.getLast? with
  | some last => last >>> 4 != zones.digit
  | none => false

def decode (zones : Zones) (bytes : List UInt8) : Except Fault Int := do
  let magnitude ← magnitudeFrom bytes.length 0 0 bytes
  return if isNegative zones bytes then -(magnitude : Int) else magnitude

end Zoned

end RecordCodec.Decimal
