import RecordCodec.Ieee.Format
import RecordCodec.Text.Number
import RecordCodec.Decimal.Digits

/-!
The shortest decimal text of a floating point number. The reals that round to a number form an
interval; its text is the point of the coarsest decimal grid in that interval, the nearer one where
two neighbours lie in it and the greater one where they are equally near. The text never has an
exponent.
-/
namespace RecordCodec.Ieee

/-- The interval of the reals that round to a number `value / unit`; `unit` is the common
denominator of `value` and of both ends. -/
structure Interval where
  low : Nat
  value : Nat
  high : Nat
  unit : Nat
  /-- Whether the ends belong to the interval. -/
  closed : Bool

namespace Interval

/-- The interval of `m * 2 ^ e`; below a power of two the next number is half as far away. -/
def ofFinite (f : Format) (m : Nat) (e : Int) : Interval :=
  let down := if m = Nat.pow 2 f.fractionBits then 1 else 2
  let scale := Nat.pow 2 (e - 2).toNat
  ⟨(4 * m - down) * scale, 4 * m * scale, (4 * m + 2) * scale, Nat.pow 2 (2 - e).toNat, m % 2 == 0⟩

def contains (i : Interval) (point : Nat) : Bool :=
  if i.closed then i.low ≤ point && point ≤ i.high else i.low < point && point < i.high

def unscale (i : Interval) (k : Int) : Interval :=
  let up := Nat.pow 10 (-k).toNat
  { i with
    low := i.low * up
    value := i.value * up
    high := i.high * up
    unit := i.unit * Nat.pow 10 k.toNat }

/-- The integer of the interval that is nearest to its value, of the two around it. -/
def integer? (i : Interval) : Option Nat :=
  let below := i.value / i.unit
  let above := below + 1
  match i.contains (below * i.unit), i.contains (above * i.unit) with
  | true, true =>
    if 2 * (i.value % i.unit) < i.unit then some below else some above
  | true, false => some below
  | false, true => some above
  | false, false => none

/-- The coarsest grid of step `10 ^ k` or finer with a point in the interval, tried on `tries`
grids; the result is the point in steps and the exponent of the step. -/
def search (i : Interval) : Nat → Int → Nat × Int
  | 0, k => ((i.unscale k).value / (i.unscale k).unit, k)
  | tries + 1, k =>
    match (i.unscale k).integer? with
    | some n => (n, k)
    | none => search i tries (k - 1)

/-- The greatest `k` with `10 ^ k ≤ value / unit`, from the number of digits of both. -/
def floorLog10 (i : Interval) : Int :=
  let guess : Int := (Decimal.digitCount i.value : Int) - Decimal.digitCount i.unit
  let scaled := i.unscale guess
  if scaled.value < scaled.unit then guess - 1 else guess

def shortest (i : Interval) : Nat × Int :=
  i.search 17 i.floorLog10

end Interval

def positional (n : Nat) (k : Int) : List Char :=
  let digits := Text.ofNat n
  if 0 ≤ k then digits ++ List.replicate k.toNat '0'
  else
    let places := (-k).toNat
    let padded := Text.padZeros (places + 1) digits
    let whole := padded.length - places
    padded.take whole ++ '.' :: padded.drop whole

def dropZeros : Nat → Nat → Int → Nat × Int
  | 0, n, k => (n, k)
  | fuel + 1, n, k => if n % 10 = 0 then dropZeros fuel (n / 10) (k + 1) else (n, k)

def Format.show (f : Format) (bits : Nat) : List Char :=
  match f.decode bits with
  | .nan _ _ => "NaN".toList
  | .infinite negative => if negative then "-inf".toList else "inf".toList
  | .finite negative m e =>
    let text :=
      if m = 0 then ['0']
      else
        let (n, k) := (Interval.ofFinite f m e).shortest
        let (n, k) := dropZeros 17 n k
        positional n k
    if negative then '-' :: text else text

end RecordCodec.Ieee
