import RecordCodec.Value.Number

/-!
Text fields. A fixed field is filled up with blanks; a variable one has a length header of 1, 2 or 4
bytes that counts itself. Large variable fields move in pieces: a read fetches the size and the
first bytes, and a second call the rest; a store writes one chunk a call.
-/
namespace RecordCodec

structure Progress where
  queue : ByteQueue
  /-- Whether the field took part in the call. -/
  tookPart : Bool
  followUp : FollowUp

def Progress.done (q : ByteQueue) : Progress := ⟨q, true, .none⟩

def Progress.skipped (q : ByteQueue) : Progress := ⟨q, false, .none⟩

/-- The bytes that a field writes in a call, and whether it has more. -/
structure Chunk where
  bytes : List UInt8
  followUp : FollowUp
  deriving DecidableEq, Repr

namespace Chunk

def empty : Chunk := ⟨[], .none⟩

def whole (bytes : List UInt8) : Chunk := ⟨bytes, .none⟩

def append (a b : Chunk) : Chunk :=
  ⟨a.bytes ++ b.bytes, a.followUp.join b.followUp⟩

end Chunk

/-- The bytes of a text field and the size of the whole text, which a read announces. -/
structure TextContent where
  bytes : List UInt8
  announced : Nat
  deriving DecidableEq, Repr

/-- A text with all of its bytes; their number is a word. -/
def TextContent.whole (bytes : List UInt8) : TextContent :=
  ⟨bytes, bytes.length % UInt32.size⟩

@[simp] theorem TextContent.bytes_whole (bytes : List UInt8) : (whole bytes).bytes = bytes :=
  rfl

variable [Libraries]

namespace TextField

def charset? (p : Place) (unicode : Bool) : Option Charset :=
  if unicode then none else p.type.charset.or p.platform.charset

def padByte (p : Place) (unicode : Bool) : UInt8 :=
  match charset? p unicode with
  | some charset => if charset.isEbcdic then 0x40 else p.platform.space
  | none => if unicode then 0x20 else p.platform.space

def maxVariable : TextSize → Nat
  | .short => 253
  | .long => 65533
  | .large => 4294967291

def isLob (p : Place) (size : TextSize) : Bool :=
  size == .large && p.type.length == 0

/-- The bytes in the layout of the field. A field restricted to a byte range takes them as they
are. -/
def layout (p : Place) (size : TextSize) (unicode : Bool) (bytes : List UInt8) :
    Except FieldFault (List UInt8) :=
  if p.type.partialRange.isSome then .ok bytes
  else
    let length := p.type.length
    let limit := if length = 0 then maxVariable size else length
    if limit < bytes.length then .error (.textTooLong p.shortName bytes.length limit)
    else .ok (bytes ++ List.replicate (length - bytes.length) (padByte p unicode))

def encode (p : Place) (unicode : Bool) (s : List Char) : Except FieldFault (List UInt8) :=
  match charset? p unicode with
  | some charset => (charset.encode s).mapError .charset
  | none => .ok (Utf8.encode s)

def assign (p : Place) (size : TextSize) (unicode : Bool) (s : Scalar) :
    Except FieldFault TextContent := do
  let payload ← match s with
    | .bytes bytes => .ok bytes
    | .text t => encode p unicode t
    | .int v => encode p unicode (Text.ofInt v.toInt)
    | .uint v => encode p unicode (Text.ofNat v.toNat)
    | .float bits => encode p unicode (Scalar.floatText bits)
  let bytes ← layout p size unicode payload
  return .whole bytes

/-- The text in the character set in effect; bytes that are none are read as UTF-8 with replacement
characters. -/
def text (p : Place) (unicode : Bool) (bytes : List UInt8) : List Char :=
  match charset? p unicode with
  | some charset =>
    match charset.decode bytes with
    | .ok s => s
    | .error _ => Utf8.decodeLossy bytes
  | none => Utf8.decodeLossy bytes

def isIncomplete (p : Place) (size : TextSize) (c : TextContent) : Bool :=
  isLob p size && c.bytes.length < c.announced

/-- The token of a large text in a store: the whole of it if one call stores it, else a chunk. The
number of the first byte is a word of four bytes, unlike the position where `storeChunk` starts. -/
def storeToken? (p : Place) (r : Request) (c : TextContent) : Option Token :=
  let length := c.bytes.length
  if length ≤ r.chunk then
    if r.isFollowUp then none else some ⟨p.tokenText, length + 4⟩
  else
    let first := (r.call * r.chunk + 1) % UInt32.size
    if length < first then none
    else some (p.part first (min r.chunk ((length - first + 1) % UInt32.size)))

/-- The token of a large text in a read: size and first bytes, then what is missing. -/
def readToken? (p : Place) (r : Request) (c : TextContent) : Option Token :=
  if r.isFollowUp then
    let present := c.bytes.length
    if c.announced ≤ present then none else some (p.part (present + 1) (c.announced - present))
  else
    some ⟨s!"{p.shortName}L,4,{p.shortName}(1,{r.partialSize})", 4 + r.partialSize⟩

def token? (p : Place) (size : TextSize) (r : Request) (c : TextContent) : Option Token :=
  match p.type.partialRange with
  | some range => if r.isFollowUp then none else some (p.part range.first.toNat range.length)
  | none =>
    if !isLob p size then p.wholeToken? r
    else if r.store then storeToken? p r c
    else readToken? p r c

def storeChunk (r : Request) (bytes : List UInt8) : Chunk :=
  let start := r.call * r.chunk
  if bytes.length ≤ start then .empty
  else
    let stop := min (start + r.chunk) bytes.length
    ⟨(bytes.drop start).take (stop - start), if stop < bytes.length then .store else .none⟩

def header (order : ByteOrder) (size : TextSize) (length : Nat) : List UInt8 :=
  order.encode size.header (length + size.header)

def storeWhole (order : ByteOrder) (p : Place) (size : TextSize) (bytes : List UInt8) :
    List UInt8 :=
  let payload := if bytes.isEmpty then [0x20] else bytes
  if p.type.isVariable then header order size payload.length ++ payload else payload

def store (order : ByteOrder) (p : Place) (size : TextSize) (r : Request) (c : TextContent) :
    Except FieldFault Chunk :=
  match p.type.partialRange with
  | some range =>
    if r.isFollowUp then .ok .empty
    else if c.bytes.length ≠ range.length then
      .error (.partialLength p.shortName range.length c.bytes.length)
    else .ok (.whole c.bytes)
  | none =>
    if isLob p size && r.chunk < c.bytes.length then .ok (storeChunk r c.bytes)
    else if r.isFollowUp then .ok .empty
    else .ok (.whole (storeWhole order p size c.bytes))

/-- Reads the rest of a large text. What there is is kept even if it is too short. -/
def readRest (p : Place) (c : TextContent) (q : ByteQueue) :
    TextContent × Except FieldFault Progress :=
  match q.take (min (c.announced - c.bytes.length) q.remaining) with
  | .error shortage => (c, .error (.shortBuffer shortage))
  | .ok (rest, q') =>
    let c' : TextContent := ⟨c.bytes ++ rest, c.announced⟩
    if c'.bytes.length = c.announced then (c', .ok (.done q'))
    else (c', .error (.lobLength p.shortName c.announced c'.bytes.length))

/-- Reads the size and the first bytes of a large text. The size is kept even if the bytes are
missing. -/
def readStart (r : Request) (c : TextContent) (q : ByteQueue) :
    TextContent × Except FieldFault Progress :=
  match q.takeNat 4 with
  | .error shortage => (c, .error (.shortBuffer shortage))
  | .ok (announced, q') =>
    match q'.take r.partialSize with
    | .error shortage => (⟨c.bytes, announced⟩, .error (.shortBuffer shortage))
    | .ok (bytes, q'') =>
      if announced ≤ bytes.length then (⟨bytes.take announced, announced⟩, .ok (.done q''))
      else (⟨bytes, announced⟩, .ok ⟨q'', true, .read⟩)

def readLength (p : Place) (size : TextSize) (q : ByteQueue) : Except Shortage (Nat × ByteQueue) :=
  if p.type.isVariable then
    (q.takeNat size.header).map fun (n, q') => (n - size.header, q')
  else .ok (p.type.length, q)

def readWhole (p : Place) (size : TextSize) (q : ByteQueue) :
    Except Shortage (List UInt8 × ByteQueue) := do
  let (length, q') ← readLength p size q
  q'.take length

def parse (p : Place) (size : TextSize) (r : Request) (c : TextContent) (q : ByteQueue) :
    TextContent × Except FieldFault Progress :=
  if r.isFollowUp then
    if isIncomplete p size c then readRest p c q else (c, .ok (.skipped q))
  else
    match p.type.partialRange with
    | some range =>
      match q.take range.length with
      | .error shortage => (c, .error (.shortBuffer shortage))
      | .ok (bytes, q') => (⟨bytes, c.announced⟩, .ok (.done q'))
    | none =>
      if isLob p size then readStart r c q
      else
        match readWhole p size q with
        | .error shortage => (c, .error (.shortBuffer shortage))
        | .ok (bytes, q') => (.whole bytes, .ok (.done q'))

end TextField

end RecordCodec
