import RecordCodec.Bytes.Hex
import RecordCodec.Charset.CodePage

/-!
Hex dumps. Each row shows sixteen bytes by their hexadecimal digits, as ASCII and as EBCDIC. Rows
equal to the one before are collapsed, except the last row.
-/
namespace RecordCodec.Dump

def rowLength : Nat := 16

def defaultLimit : Nat := 4096

def rows : Nat → Nat → List UInt8 → List (Nat × List UInt8)
  | 0, _, _ => []
  | _, _, [] => []
  | fuel + 1, offset, bytes =>
    (offset, bytes.take rowLength) :: rows fuel (offset + rowLength) (bytes.drop rowLength)

inductive Line where
  | row (offset : Nat) (bytes : List UInt8)
  /-- The row before repeats from here on. -/
  | repeats (offset : Nat)
  deriving DecidableEq, Repr

/-- The lines of rows behind a row with the bytes `previous`; `skipping` while it repeats. -/
def linesFrom (previous : Option (List UInt8)) (skipping : Bool) :
    List (Nat × List UInt8) → List Line
  | [] => []
  | [(offset, bytes)] => [.row offset bytes]
  | (offset, bytes) :: rest =>
    if previous = some bytes then
      if skipping then linesFrom previous true rest
      else .repeats offset :: linesFrom previous true rest
    else .row offset bytes :: linesFrom (some bytes) false rest

def lines (bytes : List UInt8) : List Line :=
  linesFrom none false (rows bytes.length 0 bytes)

/-- The digits of a row with a blank behind every second place; missing bytes leave their places
blank. -/
def hexColumns (bytes : List UInt8) : List Char :=
  (List.range rowLength).flatMap fun i =>
    (match bytes[i]? with
      | some b => Hex.ofByte b
      | none => [' ', ' ']) ++ if i % 2 = 1 then [' '] else []

def printable (c : Char) : Char :=
  if 0x20 ≤ c.toNat ∧ c.toNat < 0x7F then c else '.'

def asciiColumn (bytes : List UInt8) : List Char :=
  (List.range rowLength).map fun i =>
    match bytes[i]? with
    | some b => printable (Char.ofNat b.toNat)
    | none => ' '

def ebcdicColumn (bytes : List UInt8) : List Char :=
  bytes.map fun b => printable (CodePage.cp037.decodeByte b)

def Line.text : Line → List Char
  | row offset bytes =>
    '\n' :: Hex.ofNatPadded 4 offset ++ ' ' :: hexColumns bytes ++ ' ' :: asciiColumn bytes ++
      ' ' :: ebcdicColumn bytes
  | repeats offset => '\n' :: Hex.ofNatPadded 4 offset ++ " ...".toList

def text (header : String) (limit : Nat) (bytes : List UInt8) : String :=
  let size := bytes.length
  let body := String.ofList ((lines (bytes.take limit)).flatMap Line.text)
  let hidden := if limit < size then s!"\n... {size - limit} bytes not shown" else ""
  s!"{header}: Dump len={size}(0x{String.ofList (Hex.ofNat size)}){body}{hidden}\n"

end RecordCodec.Dump
