import RecordCodec.Fault

/-!
Comparators of single predicates and the logic that joins predicates.
-/
namespace RecordCodec

inductive Comparator where
  | equal
  | notEqual
  | less
  | lessOrEqual
  | greater
  | greaterOrEqual
  /-- A bound of a range that its place explains. -/
  | bound
  deriving DecidableEq, Repr

namespace Comparator

def isOperatorChar (c : Char) : Bool :=
  c == '=' || c == '!' || c == '<' || c == '>'

def ofText? : List Char → Option Comparator
  | ['='] | ['=', '='] => some equal
  | ['!', '='] | ['<', '>'] => some notEqual
  | ['<'] => some less
  | ['<', '='] => some lessOrEqual
  | ['>'] => some greater
  | ['>', '='] => some greaterOrEqual
  | _ => none

def token : Comparator → String
  | equal => "EQ"
  | notEqual => "NE"
  | less => "LT"
  | lessOrEqual => "LE"
  | greater => "GT"
  | greaterOrEqual => "GE"
  | bound => ""

end Comparator

inductive Logic where
  | conjunction
  | disjunction
  /-- A disjunction of predicates on one field. -/
  | sameField
  /-- The lower and the upper bound of a range. -/
  | range
  /-- What is left out of a range. -/
  | exclusion
  deriving DecidableEq, Repr

namespace Logic

def separator : Logic → String
  | conjunction => "D"
  | disjunction => "R"
  | sameField => "O"
  | range => "S"
  | exclusion => "N"

def name : Logic → String
  | conjunction => "AND"
  | disjunction => "OR"
  | sameField => "MOR"
  | range => "RANGE"
  | exclusion => "NOT"

end Logic

end RecordCodec
