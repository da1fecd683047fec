import RecordCodec.Bytes.Hex
import RecordCodec.Charset.CodePage
import RecordCodec.Libraries
import RecordCodec.Text.Blank
import RecordCodec.Text.Utf16
import RecordCodec.Text.Utf8

/-!
Character sets and the conversion of text to bytes and back, with the reasons why one can fail.
-/
namespace RecordCodec

inductive Charset where
  | utf8
  | utf16 (order : ByteOrder)
  | page (page : CodePage)
  | web (encoding : WebEncoding)
  deriving DecidableEq, Repr

namespace Charset

/-- Why a label names no character set, or a text and its bytes do not convert. -/
inductive Fault where
  | unknownLabel (label : String)
  | notInPage (c : Char) (page : CodePage)
  | invalidUtf8 (fault : Utf8.Fault)
  | invalidUtf16 (fault : Utf16.Fault)
  | malformed (encoding : WebEncoding)
  | notEncodable (text : String) (encoding : WebEncoding)
  deriving DecidableEq, Repr

def name : Charset → String
  | utf8 => "UTF-8"
  | utf16 .big => "UTF-16BE"
  | utf16 .little => "UTF-16LE"
  | page p => p.name
  | web e => e.name

def isEbcdic : Charset → Bool
  | page p => p.isEbcdic
  | _ => false

variable [Libraries]

def decode (charset : Charset) (bytes : List UInt8) : Except Fault (List Char) :=
  match charset with
  | utf8 => (Utf8.decode bytes).mapError .invalidUtf8
  | utf16 order => (Utf16.decode order bytes).mapError .invalidUtf16
  | page p => .ok (p.decode bytes)
  | web e =>
    match Libraries.decodeWeb? e bytes with
    | some s => .ok s
    | none => .error (.malformed e)

def encode (charset : Charset) (s : List Char) : Except Fault (List UInt8) :=
  match charset with
  | utf8 => .ok (Utf8.encode s)
  | utf16 order => .ok (Utf16.encode order s)
  | page p => (p.encode s).mapError fun c => .notInPage c p
  | web e =>
    match Libraries.encodeWeb? e s with
    | some bytes => .ok bytes
    | none => .error (.notEncodable (String.ofList s) e)

namespace Fault

def utf8Text (fault : Utf8.Fault) : String :=
  match fault.length with
  | some n => s!"invalid utf-8 sequence of {n} bytes from index {fault.index}"
  | none => s!"incomplete utf-8 byte sequence from index {fault.index}"

def codePointText (c : Char) : String :=
  String.ofList ((Hex.ofNatPadded 4 c.toNat).map Char.toUpper)

def message : Fault → String
  | unknownLabel label => s!"unknown charset '{label}'"
  | notInPage c p =>
    s!"conversion failed: Character '{c}' (U+{codePointText c}) cannot be encoded in {p.name}"
  | invalidUtf8 fault => s!"conversion failed: invalid UTF-8: {utf8Text fault}"
  | invalidUtf16 (.oddLength n) => s!"conversion failed: odd UTF-16 length {n}"
  | invalidUtf16 .loneSurrogate =>
    "conversion failed: invalid UTF-16: invalid utf-16: lone surrogate found"
  | malformed e => s!"conversion failed: malformed {e.name} input"
  | notEncodable text e => s!"conversion failed: '{text}' cannot be encoded in {e.name}"

end Fault

end Charset

end RecordCodec
