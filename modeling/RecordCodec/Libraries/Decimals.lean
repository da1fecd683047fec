import RecordCodec.Decimal.Scaled

/-!
Decimal fractions as an integer and a scale: `mantissa / 10 ^ scale`, with a mantissa of 96 bits and
at most 28 fractional digits.
-/
namespace RecordCodec.Decimal

structure Scaled where
  negative : Bool
  mantissa : Nat
  scale : Nat
  deriving DecidableEq, Repr

namespace Scaled

open Library (mantissaBound maxScale)

def toInt (d : Scaled) : Int :=
  if d.negative then -(d.mantissa : Int) else d.mantissa

/-- Ends a fraction at the first character that no longer fits: a digit of five or more rounds up,
and a mantissa that then passes the bound loses one more digit. Only digits and underscores may
follow, and they change nothing. -/
def cut? (negative : Bool) (mantissa scale : Nat) (c : Char) (rest : List Char) : Option Scaled :=
  if (c :: rest).all fun d => Text.isDigit d || d == '_' then
    let rounded := if Text.isDigit c && 5 ≤ Text.digitValue c then mantissa + 1 else mantissa
    if rounded < mantissaBound then some ⟨negative, rounded, scale⟩
    else if scale = 0 then none
    else some ⟨negative, (rounded + 4) / 10, scale - 1⟩
  else none

/-- Whether the last digit of a mantissa was read beyond a word of 64 bits. The word is left as soon
as it could overflow with one more digit, with a margin of one byte. -/
def isLong (mantissa : Nat) : Bool :=
  UInt64.size / 10 - 255 ≤ mantissa / 10

/-- Whether a fraction ends in front of a character: it has all its fractional digits. An underscore
behind a long mantissa does not end it, so that the digit behind the underscore still rounds. -/
def endsAt (mantissa scale : Nat) (c : Char) : Bool :=
  maxScale ≤ scale && !(c == '_' && isLong mantissa)

def readDigits? (negative point seen : Bool) (mantissa scale : Nat) : List Char → Option Scaled
  | [] => if seen then some ⟨negative, mantissa, scale⟩ else none
  | c :: rest =>
    if point && endsAt mantissa scale c then cut? negative mantissa scale c rest
    else if Text.isDigit c then
      let longer := mantissa * 10 + Text.digitValue c
      if longer < mantissaBound then
        readDigits? negative point true longer (if point then scale + 1 else 0) rest
      else if point then cut? negative mantissa scale c rest
      else none
    else if c = '.' ∧ point = false then readDigits? negative true seen mantissa scale rest
    else if c = '_' ∧ seen = true then readDigits? negative point seen mantissa scale rest
    else none

def readPlain? : List Char → Option Scaled
  | '-' :: rest => readDigits? true false false 0 0 rest
  | '+' :: rest => readDigits? false false false 0 0 rest
  | s => readDigits? false false false 0 0 s

def dropDigits (digits n : Nat) : Nat :=
  (2 * n + Nat.pow 10 digits) / (2 * Nat.pow 10 digits)

def shiftRight (d : Scaled) (exponent : Nat) : Scaled :=
  let scale := d.scale + exponent
  if scale ≤ maxScale then { d with scale }
  else { d with mantissa := dropDigits (scale - maxScale) d.mantissa, scale := maxScale }

def shiftLeft? (d : Scaled) (exponent : Nat) : Option Scaled :=
  if exponent ≤ d.scale then some { d with scale := d.scale - exponent }
  else
    let mantissa := d.mantissa * Nat.pow 10 (exponent - d.scale)
    if mantissa < mantissaBound then some { d with mantissa, scale := 0 } else none

def isExponentMark (c : Char) : Bool :=
  c == 'e' || c == 'E'

/-- A fraction, the letter `e` and a decimal exponent. A plus sign may stand in front of the digits
of the exponent, also behind its minus sign. -/
def readScientific? (s : List Char) : Option Scaled :=
  match s.dropWhile fun c => !isExponentMark c with
  | [] => none
  | _ :: exponent =>
    (readPlain? (s.takeWhile fun c => !isExponentMark c)).bind fun base =>
      match exponent with
      | '-' :: digits => (Text.readNatUpTo? maxScale digits).map base.shiftRight
      | digits => (Text.readNatUpTo? maxScale digits).bind base.shiftLeft?

def ofText? (s : List Char) : Option Scaled :=
  (readPlain? s).or (readScientific? s)

def stripZeros (mantissa : Nat) : Nat → Nat × Nat
  | 0 => (mantissa, 0)
  | scale + 1 =>
    if mantissa % 10 = 0 then stripZeros (mantissa / 10) scale else (mantissa, scale + 1)

def normalize (d : Scaled) : Scaled :=
  let (mantissa, scale) := stripZeros d.mantissa d.scale
  { d with mantissa, scale }

def grow (d : Scaled) : Nat → Scaled
  | 0 => d
  | times + 1 =>
    if d.mantissa * 10 < mantissaBound then
      grow { d with mantissa := d.mantissa * 10, scale := d.scale + 1 } times
    else d

def rescale (d : Scaled) (scale : Nat) : Scaled :=
  if scale < d.scale then
    { d with mantissa := dropDigits (d.scale - scale) d.mantissa, scale }
  else d.grow (scale - d.scale)

def ofScaled? (v : Int) (scale : Nat) : Option Scaled :=
  if scale ≤ maxScale ∧ v.natAbs < mantissaBound then some ⟨v < 0, v.natAbs, scale⟩ else none

def text (d : Scaled) : List Char :=
  if d.scale = 0 then Text.ofInt d.toInt else pointed d.scale d.toInt

end Scaled

def fractions : Library where
  Fraction := Scaled
  ofText? := Scaled.ofText?
  ofScaled? := Scaled.ofScaled?
  normalize := Scaled.normalize
  rescale := Scaled.rescale
  mantissa := Scaled.toInt
  scale := Scaled.scale
  text := Scaled.text

end RecordCodec.Decimal
