import RecordCodec.Ieee.Format
import RecordCodec.Text.Blank
import RecordCodec.Text.Number
import RecordCodec.Decimal.Digits

/-!
Floating point numbers written in decimal: a sign, digits around an optional point, an optional
exponent; or the words `inf`, `infinity` and `nan` in any letter case. The result is the pattern
nearest to the exact value.
-/
namespace RecordCodec.Ieee

def readExponent? (s : List Char) : Option Int :=
  match s with
  | [] => some 0
  | c :: rest =>
    if c = 'e' ∨ c = 'E' then Text.readInt? rest else none

/-- The digits and the exponent of an unsigned literal: it stands for
`digits * 10 ^ exponent`. -/
def readDecimal? (s : List Char) : Option (Nat × Int) :=
  let whole := s.takeWhile Text.isDigit
  let (fraction, rest) :=
    match s.dropWhile Text.isDigit with
    | '.' :: rest => (rest.takeWhile Text.isDigit, rest.dropWhile Text.isDigit)
    | rest => ([], rest)
  if whole.isEmpty && fraction.isEmpty then none
  else
    (readExponent? rest).map fun exponent =>
      (Text.digitsFrom 0 (whole ++ fraction), exponent - fraction.length)

/-- The pattern nearest to `digits * 10 ^ exponent`. A number with more than 400 digits before or
behind the point is as good as infinite or zero. -/
def Format.ofDecimal (f : Format) (negative : Bool) (digits : Nat) (exponent : Int) : Nat :=
  let size := (Decimal.digitCount digits : Int) + exponent
  if digits = 0 ∨ size < -400 then f.signBit negative
  else if 400 < size then f.signBit negative + f.infinity
  else if 0 ≤ exponent then f.nearest negative (digits * Nat.pow 10 exponent.toNat) 1
  else f.nearest negative digits (Nat.pow 10 (-exponent).toNat)

def Format.readUnsigned? (f : Format) (negative : Bool) (s : List Char) : Option Nat :=
  let word := s.map Text.lowerAscii
  if word = "inf".toList ∨ word = "infinity".toList then
    some (f.signBit negative + f.infinity)
  else if word = "nan".toList then some (f.ofPayload negative f.fractionBits 0)
  else (readDecimal? s).map fun (digits, exponent) => f.ofDecimal negative digits exponent

def Format.read? (f : Format) (s : List Char) : Option Nat :=
  match s with
  | '-' :: rest => f.readUnsigned? true rest
  | '+' :: rest => f.readUnsigned? false rest
  | s => f.readUnsigned? false s

end RecordCodec.Ieee
