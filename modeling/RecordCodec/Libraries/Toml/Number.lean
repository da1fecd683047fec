import RecordCodec.Bytes.Order
import RecordCodec.Calendar
import RecordCodec.Ieee.Literal
import RecordCodec.Libraries.Toml.Text

/-!
Numbers, dates and times of TOML.
-/
namespace RecordCodec.Toml

def isSeparated (isDigit : Char → Bool) : List Char → Bool
  | [] => false
  | [c] => isDigit c
  | c :: '_' :: rest => isDigit c && isSeparated isDigit rest
  | c :: rest => isDigit c && isSeparated isDigit rest

def digits? (isDigit : Char → Bool) : Reader (List Char) := fun s =>
  let inRun (c : Char) : Bool := isDigit c || c == '_'
  let run := s.takeWhile inRun
  if isSeparated isDigit run then some (run.filter isDigit, s.dropWhile inRun) else none

def sign (s : List Char) : List Char × List Char :=
  match s with
  | '+' :: rest => ([], rest)
  | '-' :: rest => (['-'], rest)
  | s => ([], s)

def decimal? (s : List Char) : Option (List Char × List Char) :=
  let (lead, body) := sign s
  match body with
  | '0' :: rest => some (lead ++ ['0'], rest)
  | body => (digits? Text.isDigit body).map fun (ds, rest) => (lead ++ ds, rest)

def integerNode? (v : Int) : Option Node :=
  if int64Min ≤ v ∧ v ≤ int64Max then some (.integer v) else none

def based? (base : Nat) : Reader Node := fun s =>
  let isDigit (c : Char) : Bool := (Hex.digitValue? c).any (· < base)
  (digits? isDigit s).bind fun (ds, rest) =>
    let n := ds.foldl (fun acc c => acc * base + (Hex.digitValue? c).getD 0) 0
    (integerNode? n).map fun node => (node, rest)

def integer? : Reader Node
  | '0' :: 'x' :: rest => based? 16 rest
  | '0' :: 'o' :: rest => based? 8 rest
  | '0' :: 'b' :: rest => based? 2 rest
  | s => (decimal? s).bind fun (ds, rest) =>
      (Text.readInt? ds).bind fun v => (integerNode? v).map fun node => (node, rest)

def fraction? : Reader (List Char)
  | '.' :: rest => (digits? Text.isDigit rest).map fun (ds, rest) => ('.' :: ds, rest)
  | _ => none

def exponent? : Reader (List Char)
  | c :: rest =>
    if c = 'e' ∨ c = 'E' then
      let (lead, rest) := sign rest
      (digits? Text.isDigit rest).map fun (ds, rest) => ('e' :: (lead ++ ds), rest)
    else none
  | [] => none

def float? (s : List Char) : Option (Node × List Char) := do
  let (whole, rest) ← decimal? s
  let (tail, rest) ←
    match fraction? rest with
    | some (fraction, rest) =>
      match exponent? rest with
      | some (exponent, rest) => some (fraction ++ exponent, rest)
      | none => some (fraction, rest)
    | none => exponent? rest
  let bits ← Ieee.double.read? (whole ++ tail)
  if (Ieee.double.decode bits).isFinite then some (.float, rest) else none

def special? (s : List Char) : Option (Node × List Char) :=
  match (sign s).2 with
  | 'i' :: 'n' :: 'f' :: rest => some (.float, rest)
  | 'n' :: 'a' :: 'n' :: rest => some (.float, rest)
  | _ => none

def field? (count low high : Nat) (s : List Char) : Option (Nat × List Char) :=
  let ds := (s.take count).takeWhile Text.isDigit
  let n := Text.digitsFrom 0 ds
  if ds.length = count ∧ low ≤ n ∧ n ≤ high then some (n, s.drop count) else none

def expect? (c : Char) (s : List Char) : Option (List Char) :=
  match s with
  | d :: rest => if d = c then some rest else none
  | [] => none

def date? (s : List Char) : Option (List Char) := do
  let (year, rest) ← field? 4 0 9999 s
  let rest ← expect? '-' rest
  let (month, rest) ← field? 2 1 12 rest
  let rest ← expect? '-' rest
  let (_, rest) ← field? 2 1 (Calendar.daysInMonth year month) rest
  return rest

def time? (s : List Char) : Option (List Char) := do
  let (_, rest) ← field? 2 0 23 s
  let rest ← expect? ':' rest
  let (_, rest) ← field? 2 0 59 rest
  let rest ← expect? ':' rest
  let (_, rest) ← field? 2 0 60 rest
  match rest with
  | '.' :: c :: more => if Text.isDigit c then some (more.dropWhile Text.isDigit) else some rest
  | rest => some rest

def skipOffset (s : List Char) : List Char :=
  let shift? (s : List Char) : Option (List Char) := do
    let (_, rest) ← field? 2 0 23 s
    let rest ← expect? ':' rest
    let (_, rest) ← field? 2 0 59 rest
    return rest
  match s with
  | 'Z' :: rest | 'z' :: rest => rest
  | '+' :: rest | '-' :: rest => (shift? rest).getD s
  | s => s

def moment? (s : List Char) : Option (Node × List Char) :=
  match date? s with
  | none => (time? s).map fun rest => (.moment, rest)
  | some rest =>
    let timed? := match rest with
      | c :: more => if c = 'T' ∨ c = 't' ∨ c = ' ' then time? more else none
      | [] => none
    match timed? with
    | some more => some (.moment, skipOffset more)
    | none => some (.moment, rest)

def number? (s : List Char) : Option (Node × List Char) :=
  (moment? s).or ((float? s).or ((special? s).or (integer? s)))

end RecordCodec.Toml
