import RecordCodec.Fault

/-!
Queries with their quoted literals taken out. Each literal becomes a numbered placeholder, so that
what follows never looks inside one; outside of literals white space is collapsed.
-/
namespace RecordCodec

structure Query where
  /-- The query with placeholders. -/
  search : List Char
  /-- The literals as they were written between their quotes, by placeholder number less one. -/
  constants : List (List Char)
  deriving DecidableEq, Repr

namespace Query

def placeholder (n : Nat) : List Char :=
  '#' :: '{' :: Text.ofNat n ++ ['}']

mutual

def outside (n : Nat) : List Char → Except FieldFault (List Char × List (List Char))
  | [] => .ok ([], [])
  | c :: rest =>
    if c = '\'' then inside (n + 1) (c :: rest) [] false rest
    else (outside n rest).map fun (search, constants) => (c :: search, constants)

/-- Looks for the end of literal number `n`. A quote behind a backslash of the literal does not end
it. `opening` starts at the opening quote, `literal` is what was read of the literal, reversed. -/
def inside (n : Nat) (opening literal : List Char) (escaped : Bool) :
    List Char → Except FieldFault (List Char × List (List Char))
  | [] => .error (.invalidLiteral (String.ofList opening) .unterminatedString)
  | c :: rest =>
    if c = '\'' ∧ escaped = false then
      (outside n rest).map fun (search, constants) =>
        (placeholder n ++ search, literal.reverse :: constants)
    else inside n opening (c :: literal) (c == '\\') rest

end

def ofText (s : List Char) : Except FieldFault Query :=
  (outside 0 s).map fun (search, constants) => ⟨Text.collapse search, constants⟩

end Query

end RecordCodec
