import RecordCodec.Bytes.Hex
import RecordCodec.Libraries.Toml.Tables

/-!
The words of TOML: blanks, comments, line ends, strings and keys. A reader takes the front of a text
and returns what it read and the rest.
-/
namespace RecordCodec.Toml

abbrev Reader (α : Type) := List Char → Option (α × List Char)

def isSpace (c : Char) : Bool :=
  c == ' ' || c == '\t'

def isLineChar (c : Char) : Bool :=
  c == '\t' || (0x20 ≤ c.toNat && c.toNat != 0x7F)

def skipSpaces (s : List Char) : List Char :=
  s.dropWhile isSpace

def lineEnd? : List Char → Option (List Char)
  | '\n' :: rest => some rest
  | '\r' :: '\n' :: rest => some rest
  | _ => none

def skipComment (s : List Char) : List Char :=
  match s with
  | '#' :: rest => rest.dropWhile isLineChar
  | s => s

def endOfLine? (s : List Char) : Option (List Char) :=
  match skipComment (skipSpaces s) with
  | [] => some []
  | s => lineEnd? s

def skipLines : Nat → List Char → List Char
  | 0, s => s
  | fuel + 1, s =>
    let s := skipSpaces s
    match s with
    | '#' :: rest =>
      match lineEnd? (rest.dropWhile isLineChar) with
      | some rest => skipLines fuel rest
      | none => s
    | s =>
      match lineEnd? s with
      | some rest => skipLines fuel rest
      | none => s

def isBareKeyChar (c : Char) : Bool :=
  let n := c.toNat
  (48 ≤ n && n ≤ 57) || (65 ≤ n && n ≤ 90) || (97 ≤ n && n ≤ 122) || c == '_' || c == '-'

def codePoint? (digits : List Char) : Option Char :=
  (digits.mapM Hex.digitValue?).bind fun values =>
    let n := values.foldl (fun acc v => acc * 16 + v) 0
    if n.isValidChar then some (Char.ofNat n) else none

def simpleEscape? : Char → Option Char
  | 'b' => some '\x08'
  | 't' => some '\t'
  | 'n' => some '\n'
  | 'f' => some '\x0c'
  | 'r' => some '\r'
  | '"' => some '"'
  | '\\' => some '\\'
  | _ => none

def escape? : Reader Char
  | 'u' :: rest => (codePoint? (rest.take 4)).bind fun c =>
      if rest.length < 4 then none else some (c, rest.drop 4)
  | 'U' :: rest => (codePoint? (rest.take 8)).bind fun c =>
      if rest.length < 8 then none else some (c, rest.drop 8)
  | c :: rest => (simpleEscape? c).map fun c => (c, rest)
  | [] => none

/-- A string on one line, behind its opening quote; `read` is what was read of it, reversed. -/
def basicString? : Nat → List Char → Reader (List Char)
  | 0, _, _ => none
  | _ + 1, read, '"' :: rest => some (read.reverse, rest)
  | fuel + 1, read, '\\' :: rest =>
    (escape? rest).bind fun (c, rest) => basicString? fuel (c :: read) rest
  | fuel + 1, read, c :: rest => if isLineChar c then basicString? fuel (c :: read) rest else none
  | _ + 1, _, [] => none

def literalString? (s : List Char) : Option (List Char × List Char) :=
  match s.dropWhile fun c => isLineChar c && c != '\'' with
  | '\'' :: rest => some (s.takeWhile fun c => isLineChar c && c != '\'', rest)
  | _ => none

/-- The end of a string over several lines: up to two quotes that belong to it, then three. -/
def closing? (quote : Char) (s : List Char) : Option (List Char × List Char) :=
  let quotes := (s.takeWhile (· == quote)).length
  if quotes < 3 then none
  else
    let inner := min (quotes - 3) 2
    some (List.replicate inner quote, s.drop (inner + 3))

/-- The text behind blanks and line ends, of which the first character after blanks is one. -/
def continuation? (s : List Char) : Option (List Char) :=
  (lineEnd? (skipSpaces s)).map fun rest =>
    rest.dropWhile fun c => isSpace c || c == '\n' || c == '\r'

/-- A string over several lines, behind its opening quotes and the line end after them. -/
def longBasicString? : Nat → List Char → Reader (List Char)
  | 0, _, _ => none
  | fuel + 1, read, s =>
    match closing? '"' s with
    | some (quotes, rest) => some (read.reverse ++ quotes, rest)
    | none =>
      match s with
      | '\\' :: rest =>
        match continuation? rest with
        | some rest => longBasicString? fuel read rest
        | none => (escape? rest).bind fun (c, rest) => longBasicString? fuel (c :: read) rest
      | s =>
        match lineEnd? s, s with
        | some rest, _ => longBasicString? fuel ('\n' :: read) rest
        | none, c :: rest => if isLineChar c then longBasicString? fuel (c :: read) rest else none
        | none, [] => none

def longLiteralString? : Nat → List Char → Reader (List Char)
  | 0, _, _ => none
  | fuel + 1, read, s =>
    match closing? '\'' s with
    | some (quotes, rest) => some (read.reverse ++ quotes, rest)
    | none =>
      match lineEnd? s, s with
      | some rest, _ => longLiteralString? fuel ('\n' :: read) rest
      | none, c :: rest => if isLineChar c then longLiteralString? fuel (c :: read) rest else none
      | none, [] => none

def skipLineEnd (s : List Char) : List Char :=
  (lineEnd? s).getD s

def string? : Reader (List Char)
  | '"' :: '"' :: '"' :: rest => longBasicString? (rest.length + 1) [] (skipLineEnd rest)
  | '\'' :: '\'' :: '\'' :: rest => longLiteralString? (rest.length + 1) [] (skipLineEnd rest)
  | '"' :: rest => basicString? (rest.length + 1) [] rest
  | '\'' :: rest => literalString? rest
  | _ => none

def simpleKey? : Reader Key
  | '"' :: rest => basicString? (rest.length + 1) [] rest
  | '\'' :: rest => literalString? rest
  | s =>
    let key := s.takeWhile isBareKeyChar
    if key.isEmpty then none else some (key, s.dropWhile isBareKeyChar)

def keyParts? : Nat → Reader (List Key)
  | 0, _ => none
  | fuel + 1, s =>
    (simpleKey? (skipSpaces s)).bind fun (key, rest) =>
      match skipSpaces rest with
      | '.' :: rest => (keyParts? fuel rest).map fun (keys, rest) => (key :: keys, rest)
      | rest => some ([key], rest)

def key? (s : List Char) : Option (List Key × List Char) :=
  keyParts? (s.length + 1) s

end RecordCodec.Toml
