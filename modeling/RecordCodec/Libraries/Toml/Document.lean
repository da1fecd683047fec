import RecordCodec.Libraries.Toml.Number

/-!
Reading TOML documents: values, and the lines that put them into tables.
-/
namespace RecordCodec.Toml

def maxDepth : Nat := 79

mutual

def value? (fuel depth : Nat) (s : List Char) : Option (Node × List Char) :=
  match fuel with
  | 0 => none
  | fuel + 1 =>
    match s with
    | '"' :: _ | '\'' :: _ => (string? s).map fun (text, rest) => (.string text, rest)
    | 't' :: 'r' :: 'u' :: 'e' :: rest => some (.boolean true, rest)
    | 'f' :: 'a' :: 'l' :: 's' :: 'e' :: rest => some (.boolean false, rest)
    | '[' :: rest =>
      if depth = 0 then none
      else (items? fuel (depth - 1) rest).map fun (items, rest) => (.array items, rest)
    | '{' :: rest =>
      if depth = 0 then none
      else
        match skipSpaces rest with
        | '}' :: rest => some (.table .braces [], rest)
        | rest => (pairs? fuel (depth - 1) [] rest).map fun (entries, rest) =>
            (.table .braces entries, rest)
    | s => number? s

def items? (fuel depth : Nat) (s : List Char) : Option (List Node × List Char) :=
  match fuel with
  | 0 => none
  | fuel + 1 =>
    match skipLines (s.length + 1) s with
    | ']' :: rest => some ([], rest)
    | s =>
      match value? fuel depth s with
      | none => none
      | some (item, rest) =>
        match skipLines (rest.length + 1) rest with
        | ',' :: rest => (items? fuel depth rest).map fun (items, rest) => (item :: items, rest)
        | ']' :: rest => some ([item], rest)
        | _ => none

def pairs? (fuel depth : Nat) (entries : Entries) (s : List Char) :
    Option (Entries × List Char) :=
  match fuel with
  | 0 => none
  | fuel + 1 =>
    match key? s with
    | some (key, '=' :: rest) =>
      match value? fuel depth (skipSpaces rest) with
      | none => none
      | some (node, rest) =>
        match entries.addDotted? false false node key with
        | none => none
        | some entries =>
          match skipSpaces rest with
          | ',' :: rest => pairs? fuel depth entries rest
          | '}' :: rest => some (entries, rest)
          | _ => none
    | _ => none

end

/-- A document so far: all tables, and the path of headers that lines belong to. -/
structure Draft where
  root : Entries
  path : List Key

namespace Draft

def openWith? (openLast? : Key → Entries → Option Entries) (header : List Key) (d : Draft) :
    Option Draft :=
  match header.getLast? with
  | none => none
  | some last =>
    (Entries.changeAt? (openLast? last) header.dropLast d.root).map fun root => ⟨root, header⟩

def add? (key : List Key) (node : Node) (d : Draft) : Option Draft :=
  (Entries.changeAt? (Entries.addDotted? false false node key) d.path d.root).map fun root =>
    { d with root }

def line? (d : Draft) (s : List Char) : Option (Draft × List Char) :=
  match skipSpaces s with
  | '[' :: '[' :: rest =>
    match key? rest with
    | some (key, ']' :: ']' :: rest) => do
      let d ← d.openWith? Entries.openNext? key
      let rest ← endOfLine? rest
      return (d, rest)
    | _ => none
  | '[' :: rest =>
    match key? rest with
    | some (key, ']' :: rest) => do
      let d ← d.openWith? Entries.openTable? key
      let rest ← endOfLine? rest
      return (d, rest)
    | _ => none
  | s =>
    match endOfLine? s with
    | some rest => some (d, rest)
    | none =>
      match key? s with
      | some (key, '=' :: rest) => do
        let (node, rest) ← value? (2 * rest.length + 2) maxDepth (skipSpaces rest)
        let d ← d.add? key node
        let rest ← endOfLine? rest
        return (d, rest)
      | _ => none

def lines? (fuel : Nat) (d : Draft) (s : List Char) : Option Draft :=
  match fuel, s with
  | _, [] => some d
  | 0, _ => none
  | fuel + 1, s =>
    match d.line? s with
    | none => none
    | some (d, rest) => lines? fuel d rest

end Draft

def document? (s : List Char) : Option Entries :=
  let s := match s with
    | c :: rest => if c.toNat = 0xFEFF then rest else s
    | [] => []
  (Draft.lines? (s.length + 1) ⟨[], []⟩ s).map Draft.root

end RecordCodec.Toml
