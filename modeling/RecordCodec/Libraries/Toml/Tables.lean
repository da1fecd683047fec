import RecordCodec.Toml.Node

/-!
The tables of a TOML document while it is read: what may still be added to them, and where.
-/
namespace RecordCodec.Toml.Entries

def put (key : Key) (node : Node) : Entries → Entries
  | [] => [(key, node)]
  | (k, n) :: rest => if k = key then (k, node) :: rest else (k, n) :: put key node rest

def addNew? (key : Key) (node : Node) (entries : Entries) : Option Entries :=
  if (entries.find? key).isSome then none else some (entries.put key node)

def changeLast? (change : Entries → Option Entries) : List Entries → Option (List Entries)
  | [] => none
  | [last] => (change last).map fun last => [last]
  | first :: rest => (changeLast? change rest).map (first :: ·)

/-- Adds a value under a dotted key. Tables that it passes through are made by dotted keys or
implied by headers, and the one that takes the value is made by dotted keys. `atDotted` says so of
the entries themselves, `isPath` that a part of the key is already passed. -/
def addDotted? (isPath atDotted : Bool) (node : Node) : List Key → Entries → Option Entries
  | [], _ => none
  | [key], entries => if isPath == atDotted then entries.addNew? key node else none
  | key :: path, entries =>
    match entries.find? key with
    | none => (addDotted? true true node path []).map fun inner =>
        entries.put key (.table .dotted inner)
    | some (.table .dotted inner) => (addDotted? true true node path inner).map fun inner =>
        entries.put key (.table .dotted inner)
    | some (.table .implied inner) => (addDotted? true false node path inner).map fun inner =>
        entries.put key (.table .implied inner)
    | some (.tables items) => (changeLast? (addDotted? true false node path) items).map fun items =>
        entries.put key (.tables items)
    | some _ => none

def changeAt? (change : Entries → Option Entries) : List Key → Entries → Option Entries
  | [], entries => change entries
  | key :: path, entries =>
    match entries.find? key with
    | none => (changeAt? change path []).map fun inner => entries.put key (.table .implied inner)
    | some (.table .braces _) => none
    | some (.table origin inner) => (changeAt? change path inner).map fun inner =>
        entries.put key (.table origin inner)
    | some (.tables items) => (changeLast? (changeAt? change path) items).map fun items =>
        entries.put key (.tables items)
    | some _ => none

def openTable? (key : Key) (entries : Entries) : Option Entries :=
  match entries.find? key with
  | none => some (entries.put key (.table .header []))
  | some (.table .implied inner) => some (entries.put key (.table .header inner))
  | some _ => none

def openNext? (key : Key) (entries : Entries) : Option Entries :=
  match entries.find? key with
  | none => some (entries.put key (.tables [[]]))
  | some (.tables items) => some (entries.put key (.tables (items ++ [[]])))
  | some _ => none

end RecordCodec.Toml.Entries
