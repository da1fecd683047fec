/-!
Integers written with decimal digits: what is read and in which range, and how they are printed.
-/
namespace RecordCodec.Text

def isDigit (c : Char) : Bool :=
  48 ≤ c.toNat && c.toNat ≤ 57

def digitValue (c : Char) : Nat :=
  c.toNat - 48

def digitsFrom (acc : Nat) (s : List Char) : Nat :=
  s.foldl (fun acc c => acc * 10 + digitValue c) acc

def readNat? (s : List Char) : Option Nat :=
  if !s.isEmpty && s.all isDigit then some (digitsFrom 0 s) else none

def readInt? : List Char → Option Int
  | '-' :: rest => (readNat? rest).map fun n => -(n : Int)
  | '+' :: rest => (readNat? rest).map fun n => (n : Int)
  | s => (readNat? s).map fun n => (n : Int)

def readUnsigned? : List Char → Option Nat
  | '+' :: rest => readNat? rest
  | s => readNat? s

def readNatUpTo? (limit : Nat) (s : List Char) : Option Nat :=
  (readUnsigned? s).filter (· ≤ limit)

def readIntBetween? (low high : Int) (s : List Char) : Option Int :=
  (readInt? s).filter fun v => low ≤ v && v ≤ high

def ofNat (n : Nat) : List Char :=
  Nat.toDigits 10 n

def ofInt (v : Int) : List Char :=
  if v < 0 then '-' :: ofNat v.natAbs else ofNat v.natAbs

def padZeros (width : Nat) (s : List Char) : List Char :=
  List.replicate (width - s.length) '0' ++ s

/-- The text of `v`, at least `width` characters long with its sign, filled up with zeros behind
the sign. -/
def ofIntPadded (width : Nat) (v : Int) : List Char :=
  if v < 0 then '-' :: padZeros (width - 1) (ofNat v.natAbs) else padZeros width (ofNat v.natAbs)

end RecordCodec.Text
