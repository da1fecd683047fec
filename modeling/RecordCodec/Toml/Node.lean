/-!
TOML documents as trees. A table remembers how it came about, because that decides what may still be
added to it: a table is never defined twice.
-/
namespace RecordCodec.Toml

abbrev Key := List Char

inductive Origin where
  /-- By a header of its own. -/
  | header
  /-- By the header of a table inside it. -/
  | implied
  /-- By a dotted key. -/
  | dotted
  /-- Between braces; nothing can be added to it. -/
  | braces
  deriving DecidableEq, Repr

inductive Node where
  | string (s : List Char)
  | integer (v : Int)
  | float
  | boolean (b : Bool)
  | moment
  | array (items : List Node)
  | table (origin : Origin) (entries : List (Key × Node))
  /-- An array of tables, each with a header of its own. -/
  | tables (items : List (List (Key × Node)))
  deriving Repr

abbrev Entries := List (Key × Node)

namespace Entries

def find? (key : Key) (entries : Entries) : Option Node :=
  List.lookup key entries

end Entries

end RecordCodec.Toml
