import RecordCodec.Charset.WebEncoding
import RecordCodec.Toml.Node

/-!
What lies outside of this library: the encodings of the web, decimal fractions, and documents of
settings. Nothing is known of them but the functions that are called.
-/
namespace RecordCodec

structure Decimal.Library where
  Fraction : Type
  ofText? : List Char → Option Fraction
  ofScaled? : Int → Nat → Option Fraction
  normalize : Fraction → Fraction
  rescale : Fraction → Nat → Fraction
  mantissa : Fraction → Int
  scale : Fraction → Nat
  text : Fraction → List Char

def Decimal.Library.mantissaBound : Nat := Nat.pow 2 96

def Decimal.Library.maxScale : Nat := 28

class Libraries where
  decodeWeb? : WebEncoding → List UInt8 → Option (List Char)
  encodeWeb? : WebEncoding → List Char → Option (List UInt8)
  decimals : Decimal.Library
  toml? : List Char → Option Toml.Entries

end RecordCodec
