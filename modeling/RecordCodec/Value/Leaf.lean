import RecordCodec.Value.Floating
import RecordCodec.Value.Integer
import RecordCodec.Value.Octets
import RecordCodec.Value.Packed
import RecordCodec.Value.Text
import RecordCodec.Value.Unpacked

/-!
Values without parts: what each kind of field holds, and its assignment, text, numbers, format token
and record bytes.
-/
namespace RecordCodec

variable [Libraries]

inductive Content where
  | integer (width : BinaryWidth) (signed : Bool) (value : Int)
  | octets (bytes : List UInt8)
  | float (wide : Bool) (bits : UInt64)
  | packed (content : PackedContent) (bytes : List UInt8)
  | unpacked (bytes : List UInt8)
  | text (size : TextSize) (unicode : Bool) (content : TextContent)
  | superDescriptor (bytes : List UInt8)
  | pseudo
  deriving DecidableEq, Repr

def Content.initial (p : Place) : Content :=
  let length := p.type.length
  match p.type.kind with
  | .binary width signed => .integer width signed 0
  | .octets => .octets (List.replicate length 0)
  | .float wide => .float wide 0
  | .packed content => .packed content (Decimal.Packed.zero p.platform.packedSigns length)
  | .unpacked => .unpacked (List.replicate length (UnpackedField.zeroDigit p))
  | .text size unicode =>
    .text size unicode ⟨List.replicate length (TextField.padByte p unicode), 0⟩
  | .superDescriptor => .superDescriptor []
  | .pseudo _ | .group | .periodicGroup | .multiple => .pseudo

structure Leaf where
  place : Place
  content : Content
  deriving Repr

namespace Leaf

def fresh (p : Place) : Leaf :=
  ⟨p, .initial p⟩

def assignContent (l : Leaf) (s : Scalar) : Except FieldFault Content :=
  match l.content with
  | .integer width signed _ =>
    (IntegerField.assign l.place width signed s).map (.integer width signed)
  | .octets _ => (OctetField.assign l.place s).map .octets
  | .float wide _ => (FloatField.assign l.place wide s).map (.float wide)
  | .packed content _ => (PackedField.assign l.place content s).map (.packed content)
  | .unpacked _ => (UnpackedField.assign l.place s).map .unpacked
  | .text size unicode _ =>
    (TextField.assign l.place size unicode s).map (.text size unicode)
  | .superDescriptor _ | .pseudo => .error (.readOnly l.place.shortName)

def assign (l : Leaf) (s : Scalar) : Except FieldFault Leaf :=
  (l.assignContent s).map fun content => { l with content }

def assignOperand (l : Leaf) (s : Scalar) : Except FieldFault Leaf :=
  match l.content with
  | .superDescriptor _ =>
    let bytes := match s with
      | .bytes b => b
      | s => Utf8.encode (s.text?.getD [])
    .ok { l with content := .superDescriptor bytes }
  | _ => l.assign s

def bytes (l : Leaf) : List UInt8 :=
  match l.content with
  | .integer width _ v => IntegerField.encode l.place.platform.byteOrder width v
  | .float wide bits => FloatField.encode l.place.platform.byteOrder wide bits
  | .octets bytes | .packed _ bytes | .unpacked bytes | .superDescriptor bytes => bytes
  | .text _ _ c => c.bytes
  | .pseudo => []

def text (l : Leaf) : List Char :=
  match l.content with
  | .integer _ _ v => Decimal.showScaled l.place.type.fraction v
  | .octets bytes => OctetField.text bytes
  | .float wide bits => FloatField.text wide bits
  | .packed content bytes => PackedField.text l.place content bytes
  | .unpacked bytes => UnpackedField.text l.place bytes
  | .text _ unicode c => TextField.text l.place unicode c.bytes
  | .superDescriptor bytes => Utf8.decodeLossy bytes
  | .pseudo => []

def integer (l : Leaf) (target : NumberTarget) : Except FieldFault Int := do
  match l.content with
  | .integer _ _ v => l.place.unscaled v
  | .octets bytes => OctetField.number l.place bytes
  | .float _ bits => FloatField.integer l.place bits
  | .packed _ bytes => l.place.unscaled (← PackedField.number bytes)
  | .unpacked bytes => l.place.unscaled (← UnpackedField.number l.place bytes)
  | .text .. | .superDescriptor _ | .pseudo => .error (l.place.notNumeric target)

def int64 (l : Leaf) : Except FieldFault Int := do
  l.place.toInt64 (← l.integer .int64)

def uint64 (l : Leaf) : Except FieldFault Int := do
  l.place.toUInt64 (← l.integer .uint64)

def float64 (l : Leaf) : Except FieldFault UInt64 := do
  match l.content with
  | .integer _ _ v => return l.place.scaledToDouble v
  | .octets bytes => return (Ieee.double.ofInt (← OctetField.number l.place bytes)).toUInt64
  | .float _ bits => return bits
  | .packed _ bytes => return l.place.scaledToDouble (← PackedField.number bytes)
  | .unpacked bytes => return l.place.scaledToDouble (← UnpackedField.number l.place bytes)
  | .text .. | .superDescriptor _ | .pseudo => .error (l.place.notNumeric .float64)

def announced? (l : Leaf) : Option Nat :=
  match l.content with
  | .text _ _ c => some c.announced
  | _ => none

def token? (r : Request) (l : Leaf) : Option Token :=
  match l.content with
  | .text size _ c => TextField.token? l.place size r c
  | .pseudo => none
  | _ => l.place.wholeToken? r

/-- The token of the field in a search buffer; a super-descriptor has the length of its operand. -/
def searchTokenText (l : Leaf) : String :=
  match l.content with
  | .superDescriptor bytes => s!"{l.place.shortName},{bytes.length},{l.place.type.formatChar}"
  | _ => l.place.tokenText

def storeShort (p : Place) (payload : List UInt8) : Chunk :=
  .whole <|
    if p.type.isVariable then UInt8.ofNat (payload.length + 1) :: payload else payload

def storeDecimal (p : Place) (bytes ifEmpty : List UInt8) : Chunk :=
  storeShort p (if p.type.isVariable && bytes.isEmpty then ifEmpty else bytes)

/-- What the field writes in a store request. Only texts take part in calls after the first. -/
def store (order : ByteOrder) (r : Request) (l : Leaf) : Except FieldFault Chunk :=
  match l.content with
  | .text size _ c => TextField.store order l.place size r c
  | .pseudo => .error (.readOnly l.place.shortName)
  | content =>
    if r.isFollowUp then .ok .empty
    else
      .ok <| match content with
        | .integer width _ v => .whole (IntegerField.encode order width v)
        | .float wide bits => .whole (FloatField.encode order wide bits)
        | .octets bytes => storeShort l.place bytes
        | .packed _ bytes => storeDecimal l.place bytes (PackedField.emptyPayload l.place)
        | .unpacked bytes => storeDecimal l.place bytes (UnpackedField.emptyPayload l.place)
        | .superDescriptor bytes => .whole bytes
        | .text .. | .pseudo => .empty

/-- Reads as many bytes as the field has, behind a length header of one byte in a variable one. -/
def readShort (p : Place) (q : ByteQueue) : Except Shortage (List UInt8 × ByteQueue) := do
  if p.type.isVariable then
    let (n, q') ← q.takeNat 1
    q'.take (n - 1)
  else q.take p.type.length

def readContent (l : Leaf) (q : ByteQueue) : Except Shortage (Content × ByteQueue) :=
  match l.content with
  | .integer width signed _ =>
    (IntegerField.read width signed q).map fun (v, q') => (.integer width signed v, q')
  | .float wide _ =>
    (q.takeNat (FloatField.width wide)).map fun (n, q') =>
      (.float wide (FloatField.widen wide n), q')
  | .octets _ => (readShort l.place q).map fun (bytes, q') => (.octets bytes, q')
  | .packed content _ => (readShort l.place q).map fun (bytes, q') => (.packed content bytes, q')
  | .unpacked _ => (readShort l.place q).map fun (bytes, q') => (.unpacked bytes, q')
  | .superDescriptor _ =>
    (q.take l.place.type.length).map fun (bytes, q') => (.superDescriptor bytes, q')
  | .text size unicode c => .ok (.text size unicode c, q)
  | .pseudo => .ok (.pseudo, q)

/-- Reads the field from a record. A failed read of a large text may have changed it; every other
failed read changes nothing. -/
def parse (r : Request) (q : ByteQueue) (l : Leaf) : Leaf × Except FieldFault Progress :=
  match l.content with
  | .text size unicode c =>
    let (c', outcome) := TextField.parse l.place size r c q
    ({ l with content := .text size unicode c' }, outcome)
  | .pseudo => (l, .ok (.done q))
  | _ =>
    if r.isFollowUp then (l, .ok (.skipped q))
    else
      match l.readContent q with
      | .error shortage => (l, .error (.shortBuffer shortage))
      | .ok (content, q') => ({ l with content }, .ok (.done q'))

end Leaf

end RecordCodec
