import RecordCodec.Decimal.Digits

/-!
Packed decimals: two digits a byte, and one digit and the sign in the last byte, so that a field of
`n` bytes carries `2 * n - 1` digits. Which half bytes stand for the signs depends on the platform;
when read, `B` and `D` are negative and every other half byte is positive.
-/
namespace RecordCodec.Decimal

/-- The sign half bytes that the packed encoder writes. -/
structure PackedSigns where
  positive : UInt8
  negative : UInt8
  deriving DecidableEq, Repr

namespace PackedSigns

def openSystem : PackedSigns := ⟨0x0C, 0x0B⟩

def mainframe : PackedSigns := ⟨0x0F, 0x0D⟩

def ofInt (signs : PackedSigns) (v : Int) : UInt8 :=
  if v < 0 then signs.negative else signs.positive

end PackedSigns

namespace Packed

def lengthFor (v : Int) : Nat :=
  (digitCount v.natAbs + 2) / 2

def capacity (length : Nat) : Nat :=
  length * 2 - 1

def digitPairs : Nat → Nat → List UInt8
  | 0, _ => []
  | count + 1, n =>
    digitPairs count (n / 100) ++ [UInt8.ofNat (n / 10 % 10 * 16 + n % 10)]

def lastByte (signs : PackedSigns) (v : Int) : UInt8 :=
  UInt8.ofNat (v.natAbs % 10 * 16) ||| signs.ofInt v

def encode (signs : PackedSigns) (length : Nat) (v : Int) : Except Fault (List UInt8) :=
  let digits := digitCount v.natAbs
  if length = 0 ∨ capacity length < digits then .error (.overflow v digits (capacity length))
  else .ok (digitPairs (length - 1) (v.natAbs / 10) ++ [lastByte signs v])

def zero (signs : PackedSigns) : Nat → List UInt8
  | 0 => []
  | length + 1 => List.replicate length 0 ++ [signs.positive]

def highNibble (b : UInt8) : Nat :=
  b.toNat / 16

def lowNibble (b : UInt8) : Nat :=
  b.toNat % 16

def isNegative (last : UInt8) : Bool :=
  lowNibble last == 0xB || lowNibble last == 0xD

def overflow (length : Nat) (v : Int) : Fault :=
  .overflow v (digitCount v.natAbs) (capacity length)

/-- Reads a field of `length` bytes from byte `position` on, after digits that denote `acc`. -/
def decodeFrom (length position acc : Nat) : List UInt8 → Except Fault Int
  | [] => .ok acc
  | [last] =>
    if 9 < highNibble last then .error (.badDigit (highNibble last) position)
    else
      let magnitude := acc * 10 + highNibble last
      let v : Int := if isNegative last then -(magnitude : Int) else magnitude
      if int64Min ≤ v ∧ v ≤ int64Max then .ok v else .error (overflow length v)
  | b :: rest =>
    if 9 < highNibble b then .error (.badDigit (highNibble b) position)
    else if 9 < lowNibble b then .error (.badDigit (lowNibble b) position)
    else
      let acc := acc * 100 + highNibble b * 10 + lowNibble b
      if int64Max < acc then .error (overflow length acc)
      else decodeFrom length (position + 1) acc rest

def decode (bytes : List UInt8) : Except Fault Int :=
  decodeFrom bytes.length 0 0 bytes

end Packed

end RecordCodec.Decimal
