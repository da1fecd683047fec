/-!
UTF-8. `next` looks at the first character of a byte string: it is complete, it is broken after a
maximal well-formed beginning of one to three bytes, or the string ends inside it. Decoding either
stops at the first fault or puts the replacement character in the place of each one.
-/
namespace RecordCodec.Utf8

def encodeChar (c : Char) : List UInt8 :=
  let n := c.toNat
  if n < 0x80 then [UInt8.ofNat n]
  else if n < 0x800 then [UInt8.ofNat (0xC0 + n / 64), UInt8.ofNat (0x80 + n % 64)]
  else if n < 0x10000 then
    [UInt8.ofNat (0xE0 + n / 4096), UInt8.ofNat (0x80 + n / 64 % 64), UInt8.ofNat (0x80 + n % 64)]
  else
    [UInt8.ofNat (0xF0 + n / 262144), UInt8.ofNat (0x80 + n / 4096 % 64),
      UInt8.ofNat (0x80 + n / 64 % 64), UInt8.ofNat (0x80 + n % 64)]

def encode (s : List Char) : List UInt8 :=
  s.flatMap encodeChar

inductive Front where
  /-- A character of `length` bytes. -/
  | char (c : Char) (length : Nat)
  /-- The first `length` bytes begin no character; they are those that agree with one. -/
  | broken (length : Nat)
  /-- The string ends inside a character. -/
  | cut
  deriving DecidableEq, Repr

def isContinuation (b : UInt8) : Bool :=
  0x80 ≤ b && b < 0xC0

/-- The values of the byte after the lead byte `b` of a character of three or four bytes; the
bounds exclude overlong forms, surrogates and numbers past the last code point. -/
def secondInRange (b second : UInt8) : Bool :=
  if b == 0xE0 then 0xA0 ≤ second && second < 0xC0
  else if b == 0xED then 0x80 ≤ second && second < 0xA0
  else if b == 0xF0 then 0x90 ≤ second && second < 0xC0
  else if b == 0xF4 then 0x80 ≤ second && second < 0x90
  else isContinuation second

def low6 (b : UInt8) : Nat :=
  b.toNat - 0x80

def next (b : UInt8) (rest : List UInt8) : Front :=
  if b < 0x80 then .char (Char.ofNat b.toNat) 1
  else if 0xC2 ≤ b && b < 0xE0 then
    match rest with
    | [] => .cut
    | b1 :: _ =>
      if isContinuation b1 then .char (Char.ofNat ((b.toNat - 0xC0) * 64 + low6 b1)) 2
      else .broken 1
  else if 0xE0 ≤ b && b < 0xF0 then
    match rest with
    | [] => .cut
    | b1 :: rest =>
      if secondInRange b b1 then
        match rest with
        | [] => .cut
        | b2 :: _ =>
          if isContinuation b2 then
            .char (Char.ofNat ((b.toNat - 0xE0) * 4096 + low6 b1 * 64 + low6 b2)) 3
          else .broken 2
      else .broken 1
  else if 0xF0 ≤ b && b < 0xF5 then
    match rest with
    | [] => .cut
    | b1 :: rest =>
      if secondInRange b b1 then
        match rest with
        | [] => .cut
        | b2 :: rest =>
          if isContinuation b2 then
            match rest with
            | [] => .cut
            | b3 :: _ =>
              if isContinuation b3 then
                .char
                  (Char.ofNat ((b.toNat - 0xF0) * 262144 + low6 b1 * 4096 + low6 b2 * 64 + low6 b3))
                  4
              else .broken 3
          else .broken 2
      else .broken 1
  else .broken 1

/-- The first fault of a byte string: where it is, and the length of the broken part unless the
string ends inside it. -/
structure Fault where
  index : Nat
  length : Option Nat
  deriving DecidableEq, Repr

/-- Decodes from byte `index` on, after `skip` bytes that belong to a character already read. -/
def decodeFrom (index : Nat) : Nat → List UInt8 → Except Fault (List Char)
  | _, [] => .ok []
  | skip + 1, _ :: rest => decodeFrom (index + 1) skip rest
  | 0, b :: rest =>
    match next b rest with
    | .char c n =>
      match decodeFrom (index + 1) (n - 1) rest with
      | .ok s => .ok (c :: s)
      | .error fault => .error fault
    | .broken n => .error ⟨index, some n⟩
    | .cut => .error ⟨index, none⟩

def decode (bytes : List UInt8) : Except Fault (List Char) :=
  decodeFrom 0 0 bytes

/-- Decodes after `skip` bytes that belong to a character already read, with U+FFFD for each
fault. -/
def decodeLossyFrom : Nat → List UInt8 → List Char
  | _, [] => []
  | skip + 1, _ :: rest => decodeLossyFrom skip rest
  | 0, b :: rest =>
    match next b rest with
    | .char c n => c :: decodeLossyFrom (n - 1) rest
    | .broken n => Char.ofNat 0xFFFD :: decodeLossyFrom (n - 1) rest
    | .cut => [Char.ofNat 0xFFFD]

def decodeLossy (bytes : List UInt8) : List Char :=
  decodeLossyFrom 0 bytes

end RecordCodec.Utf8
