import RecordCodec.Bytes.Order

/-!
A byte queue: reads take bytes from the front, writes append at the end, and the bytes already read
stay visible. A read that asks for more than is left changes nothing.
-/
namespace RecordCodec

/-- A read asked for `requested` bytes where `remaining` were left. -/
structure Shortage where
  requested : Nat
  remaining : Nat
  deriving DecidableEq, Repr

structure ByteQueue where
  order : ByteOrder
  /-- The bytes read so far, latest first. -/
  taken : List UInt8
  /-- The bytes not read yet. -/
  rest : List UInt8
  deriving DecidableEq, Repr

namespace ByteQueue

def ofList (order : ByteOrder) (bytes : List UInt8) : ByteQueue :=
  ⟨order, [], bytes⟩

def toList (q : ByteQueue) : List UInt8 :=
  q.taken.reverse ++ q.rest

def offset (q : ByteQueue) : Nat :=
  q.taken.length

def remaining (q : ByteQueue) : Nat :=
  q.rest.length

def size (q : ByteQueue) : Nat :=
  q.offset + q.remaining

def isEmpty (q : ByteQueue) : Bool :=
  q.taken.isEmpty && q.rest.isEmpty

def take (n : Nat) (q : ByteQueue) : Except Shortage (List UInt8 × ByteQueue) :=
  let bytes := q.rest.take n
  if bytes.length = n then
    .ok (bytes, { q with taken := bytes.reverse ++ q.taken, rest := q.rest.drop n })
  else
    .error ⟨n, q.remaining⟩

def takeNat (width : Nat) (q : ByteQueue) : Except Shortage (Nat × ByteQueue) := do
  let (bytes, q') ← q.take width
  return (q.order.decode bytes, q')

def takeInt (width : Nat) (q : ByteQueue) : Except Shortage (Int × ByteQueue) := do
  let (n, q') ← q.takeNat width
  return (signedOf width n, q')

def put (bytes : List UInt8) (q : ByteQueue) : ByteQueue :=
  { q with rest := q.rest ++ bytes }

def putInt (width : Nat) (v : Int) (q : ByteQueue) : ByteQueue :=
  q.put (q.order.encode width (unsignedOf width v))

end ByteQueue

end RecordCodec
