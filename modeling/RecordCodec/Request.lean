/-!
What a request asks of the fields: a store or a read, the number of the call, and the sizes in which
large texts and repeated fields are moved.
-/
namespace RecordCodec

inductive FollowUp where
  | none
  /-- Bytes of a large text are still to be read. -/
  | read
  /-- Bytes of a large text are still to be stored. -/
  | store
  deriving DecidableEq, Repr

def FollowUp.join (a b : FollowUp) : FollowUp :=
  if b = .none then a else b

structure Request where
  store : Bool
  /-- The number of the call, zero for the first. -/
  call : Nat
  /-- Bytes of a large text that the first call reads. -/
  partialSize : Nat
  /-- Bytes of a large text that one call stores. -/
  chunkSize : Nat
  /-- Record bytes reserved for a repeated field. -/
  multipleSize : Nat
  mainframe : Bool
  deriving DecidableEq, Repr

namespace Request

def ofCall (store : Bool) (call : Nat) : Request where
  store := store
  call := call
  partialSize := 4096
  chunkSize := 40960
  multipleSize := 32768
  mainframe := false

def isFollowUp (r : Request) : Bool :=
  0 < r.call

def chunk (r : Request) : Nat :=
  max r.chunkSize 1

end Request

/-- A field in a format buffer and the record bytes that it stands for, however many. What a value
returns for its tokens is `Token.word`. -/
structure Token where
  text : String
  length : Nat
  deriving DecidableEq, Repr

namespace Token

def totalLength (tokens : List Token) : Nat :=
  tokens.foldr (fun token total => token.length + total) 0

theorem totalLength_append (a b : List Token) :
    totalLength (a ++ b) = totalLength a + totalLength b := by
  induction a with
  | nil => exact (Nat.zero_add _).symm
  | cons t rest ih =>
    simp only [totalLength, List.cons_append, List.foldr_cons] at ih ⊢
    omega

/-- The record bytes of a list of tokens, added up in words of four bytes. -/
def word (tokens : List Token) : Nat :=
  totalLength tokens % UInt32.size

def separate (out : String) : String :=
  if out.isEmpty || out.endsWith "," then out else out ++ ","

def appendTexts (out : String) (texts : List String) : String :=
  texts.foldl (fun out text => separate out ++ text) out

def append (out : String) (tokens : List Token) : String :=
  appendTexts out (tokens.map Token.text)

end Token

end RecordCodec
