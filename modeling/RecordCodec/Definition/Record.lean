import RecordCodec.Definition.Basic
import RecordCodec.Value.Format
import RecordCodec.Value.Parse
import RecordCodec.Value.Store

/-!
Whole records: the format buffer that lists the fields of a request, the record buffer that a store
sends and a read fills in.
-/
namespace RecordCodec.Definition

def takesPart (r : Request) (v : Value) : Bool :=
  if r.store then !v.type.isReadOnly && !v.type.hasFlag .toBeRemoved else !v.type.kind.isPseudo

def tokens (r : Request) (d : Definition) : List Token :=
  (d.values.filter (takesPart r)).flatMap (Value.tokens r)

def maxLength : Nat := UInt32.size - 1

/-- The record length of the tokens of each top-level value. Each value adds its word, and the sum
stops at the greatest length. -/
def recordLength (tokens : List (List Token)) : Nat :=
  tokens.foldl (fun total ts => min maxLength (total + Token.word ts)) 0

/-- The format buffer, which ends with a full stop, and the record length. -/
def format (r : Request) (d : Definition) : String × Nat :=
  (Token.append "" (d.tokens r) ++ ".",
    recordLength ((d.values.filter (takesPart r)).map (Value.tokens r)))

theorem word_of_le {ts : List Token} (fits : Token.totalLength ts ≤ maxLength) :
    Token.word ts = Token.totalLength ts :=
  Nat.mod_eq_of_lt (Nat.lt_of_le_of_lt fits (by decide))

theorem foldl_recordLength {tokens : List (List Token)} {start : Nat}
    (fits : start + Token.totalLength tokens.flatten ≤ maxLength) :
    tokens.foldl (fun total ts => min maxLength (total + Token.word ts)) start =
      start + Token.totalLength tokens.flatten := by
  induction tokens generalizing start with
  | nil => rfl
  | cons ts rest ih =>
    rw [List.flatten_cons, Token.totalLength_append, ← Nat.add_assoc] at fits ⊢
    have here := Nat.le_trans (Nat.le_add_right ..) fits
    have word : Token.word ts = Token.totalLength ts :=
      word_of_le (Nat.le_trans (Nat.le_add_left ..) here)
    rw [List.foldl_cons, word, Nat.min_eq_right here]
    exact ih fits

theorem format_length {r : Request} {d : Definition}
    (fits : Token.totalLength (d.tokens r) ≤ maxLength) :
    (d.format r).2 = Token.totalLength (d.tokens r) := by
  rw [tokens, List.flatMap] at fits ⊢
  exact (foldl_recordLength (by rwa [Nat.zero_add])).trans (Nat.zero_add _)

def storeValues (order : ByteOrder) (r : Request) : List Value → Except FieldFault Chunk
  | [] => .ok .empty
  | v :: rest => do
    let first ← v.store order r
    let others ← storeValues order r rest
    return first.append others

/-- The record of a store request, and whether a large text has chunks left. -/
def store (r : Request) (d : Definition) : Except FieldFault Chunk :=
  storeValues d.platform.byteOrder r (d.values.filter (takesPart r))

/-- Reads the values from a record. The outcome is whether a large text has bytes left; after a
failure the values before it keep what was read. Bytes behind the last field are ignored. -/
def parse (r : Request) (record : List UInt8) (d : Definition) :
    Definition × Except FieldFault FollowUp :=
  let queue := ByteQueue.ofList d.platform.byteOrder record
  match Value.parseMembers r queue d.values with
  | (values, outcome) => ({ d with values }, outcome.map Remainder.followUp)

end RecordCodec.Definition
