import RecordCodec.Bytes.Order

/-!
UTF-16 without a byte order mark, in either byte order.
-/
namespace RecordCodec.Utf16

def units (c : Char) : List Nat :=
  let n := c.toNat
  if n < 0x10000 then [n] else [0xD800 + (n - 0x10000) / 1024, 0xDC00 + (n - 0x10000) % 1024]

def encode (order : ByteOrder) (s : List Char) : List UInt8 :=
  s.flatMap fun c => (units c).flatMap (order.encode 2)

def ofUnits? : List Nat → Option (List Char)
  | [] => some []
  | u :: rest =>
    if u < 0xD800 ∨ 0xE000 ≤ u then (ofUnits? rest).map (Char.ofNat u :: ·)
    else
      match rest with
      | [] => none
      | v :: rest =>
        if u < 0xDC00 ∧ 0xDC00 ≤ v ∧ v < 0xE000 then
          (ofUnits? rest).map (Char.ofNat (0x10000 + (u - 0xD800) * 1024 + (v - 0xDC00)) :: ·)
        else none

def unitsOfBytes (order : ByteOrder) : List UInt8 → List Nat
  | a :: b :: rest => order.decode [a, b] :: unitsOfBytes order rest
  | _ => []

inductive Fault where
  | oddLength (length : Nat)
  | loneSurrogate
  deriving DecidableEq, Repr

def decode (order : ByteOrder) (bytes : List UInt8) : Except Fault (List Char) :=
  if bytes.length % 2 = 0 then
    match ofUnits? (unitsOfBytes order bytes) with
    | some s => .ok s
    | none => .error .loneSurrogate
  else .error (.oddLength bytes.length)

end RecordCodec.Utf16
