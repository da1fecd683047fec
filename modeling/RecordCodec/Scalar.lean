import RecordCodec.Ieee.Shortest

/-!
What can be assigned to a field: a number, a text or raw bytes.
-/
namespace RecordCodec

inductive Scalar where
  | int (v : Int64)
  | uint (v : UInt64)
  /-- A double, by its bit pattern. -/
  | float (bits : UInt64)
  | text (s : List Char)
  | bytes (b : List UInt8)
  deriving DecidableEq, Repr

namespace Scalar

def floatText (bits : UInt64) : List Char :=
  Ieee.double.show bits.toNat

def describe : Scalar → String
  | int v => String.ofList (Text.ofInt v.toInt)
  | uint v => String.ofList (Text.ofNat v.toNat)
  | float bits => String.ofList (floatText bits)
  | text s => s!"'{String.ofList s}'"
  | bytes b => s!"{b.length} bytes"

def text? : Scalar → Option (List Char)
  | int v => some (Text.ofInt v.toInt)
  | uint v => some (Text.ofNat v.toNat)
  | float bits => some (floatText bits)
  | text s => some s
  | bytes _ => none

end Scalar

end RecordCodec
