import RecordCodec.Bytes.Order
import RecordCodec.Libraries
import RecordCodec.Text.Blank
import RecordCodec.Text.Number

/-!
The texts of integers that are scaled by the fractional digits of a field. They are read and written
as decimal fractions; what is no fraction of the library is written digit by digit.
-/
namespace RecordCodec.Decimal

/-- The digits of an integer with a point in front of the last `fraction` ones. -/
def pointed (fraction : Nat) (v : Int) : List Char :=
  let digits := Text.padZeros (fraction + 1) (Text.ofNat v.natAbs)
  let whole := digits.length - fraction
  let unsigned := digits.take whole ++ '.' :: digits.drop whole
  if v < 0 then '-' :: unsigned else unsigned

variable [Libraries]

open Libraries (decimals)

/-- Reads an integer scaled by `fraction` digits. Without fractional digits plain integers of
sixteen bytes are read too. -/
def readScaled? (fraction : Nat) (s : List Char) : Option Int :=
  let trimmed := Text.trim s
  let body := (Text.afterLead? ['+'] trimmed).getD trimmed
  let integer? := if fraction = 0 then Text.readIntBetween? int128Min int128Max body else none
  integer?.or <|
    (decimals.ofText? body).bind fun parsed =>
      let d := decimals.normalize parsed
      if decimals.scale d ≤ fraction then some (decimals.mantissa (decimals.rescale d fraction))
      else none

def showScaled (fraction : Nat) (v : Int) : List Char :=
  if fraction = 0 then Text.ofInt v
  else
    match decimals.ofScaled? v fraction with
    | some d => decimals.text d
    | none => pointed fraction v

end RecordCodec.Decimal
