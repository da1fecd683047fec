import RecordCodec.Charset.WebEncoding
import RecordCodec.Libraries.UpperHalf
import RecordCodec.Text.Utf8

/-!
Tables for the legacy encodings of the web. The single byte ones are ASCII and an upper half. The
multi-byte ones are ASCII and the few characters that this library knows of them. `x-user-defined`
moves the upper half into the private use area; the replacement encoding reads nothing but the empty
text and writes UTF-8.
-/
namespace RecordCodec.WebEncoding

def upperHalf? : WebEncoding → Option (List Nat)
  | ibm866 => some UpperHalf.ibm866
  | iso8859_2 => some UpperHalf.iso8859_2
  | iso8859_3 => some UpperHalf.iso8859_3
  | iso8859_4 => some UpperHalf.iso8859_4
  | iso8859_5 => some UpperHalf.iso8859_5
  | iso8859_6 => some UpperHalf.iso8859_6
  | iso8859_7 => some UpperHalf.iso8859_7
  | iso8859_8 => some UpperHalf.iso8859_8
  | iso8859_8i => some UpperHalf.iso8859_8
  | iso8859_10 => some UpperHalf.iso8859_10
  | iso8859_13 => some UpperHalf.iso8859_13
  | iso8859_14 => some UpperHalf.iso8859_14
  | iso8859_15 => some UpperHalf.iso8859_15
  | iso8859_16 => some UpperHalf.iso8859_16
  | koi8r => some UpperHalf.koi8r
  | koi8u => some UpperHalf.koi8u
  | macintosh => some UpperHalf.macintosh
  | windows874 => some UpperHalf.windows874
  | windows1250 => some UpperHalf.windows1250
  | windows1251 => some UpperHalf.windows1251
  | windows1252 => some UpperHalf.windows1252
  | windows1253 => some UpperHalf.windows1253
  | windows1254 => some UpperHalf.windows1254
  | windows1255 => some UpperHalf.windows1255
  | windows1256 => some UpperHalf.windows1256
  | windows1257 => some UpperHalf.windows1257
  | windows1258 => some UpperHalf.windows1258
  | macCyrillic => some UpperHalf.macCyrillic
  | userDefined => some ((List.range 128).map (0xF780 + ·))
  | _ => none

def extension : WebEncoding → List (Char × List UInt8)
  | shiftJis => [(Char.ofNat 0x65E5, [0x93, 0xFA]), (Char.ofNat 0x672C, [0x96, 0x7B])]
  | _ => []

def decodeByte? (upper : List Nat) (b : UInt8) : Option Char :=
  if b < 0x80 then some (Char.ofNat b.toNat)
  else
    match upper.getD (b.toNat - 128) 0 with
    | 0 => none
    | n => some (Char.ofNat n)

def encodeByte? (upper : List Nat) (c : Char) : Option UInt8 :=
  if c.toNat < 128 then some (UInt8.ofNat c.toNat)
  else (upper.idxOf? c.toNat).map fun i => UInt8.ofNat (i + 128)

def decodeKnown? (known : List (Char × List UInt8)) : List UInt8 → Option (List Char)
  | [] => some []
  | b :: rest =>
    if b < 0x80 then (decodeKnown? known rest).map (Char.ofNat b.toNat :: ·)
    else
      match rest with
      | [] => none
      | second :: rest =>
        (known.find? fun entry => entry.2 == [b, second]).bind fun entry =>
          (decodeKnown? known rest).map (entry.1 :: ·)

def encodeKnown? (known : List (Char × List UInt8)) (c : Char) : Option (List UInt8) :=
  if c.toNat < 128 then some [UInt8.ofNat c.toNat]
  else (known.find? fun entry => entry.1 == c).map (·.2)

def decode? (e : WebEncoding) (bytes : List UInt8) : Option (List Char) :=
  match e with
  | replacement => if bytes.isEmpty then some [] else none
  | e =>
    match e.upperHalf? with
    | some upper => bytes.mapM (decodeByte? upper)
    | none => decodeKnown? e.extension bytes

def encode? (e : WebEncoding) (s : List Char) : Option (List UInt8) :=
  match e with
  | replacement => some (Utf8.encode s)
  | e =>
    match e.upperHalf? with
    | some upper => s.mapM (encodeByte? upper)
    | none => (s.mapM (encodeKnown? e.extension)).map List.flatten

end RecordCodec.WebEncoding
