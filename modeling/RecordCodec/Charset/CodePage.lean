import RecordCodec.Charset.CodePoints

/-!
The IBM single byte pages: a bijection between the 256 bytes and as many characters.
-/
namespace RecordCodec

inductive CodePage where
  | cp037
  | cp1047
  | cp1140
  | cp437
  | cp850
  | cp852
  | cp855
  | cp858
  | cp860
  deriving DecidableEq, Repr

namespace CodePage

def all : List CodePage :=
  [cp037, cp1047, cp1140, cp437, cp850, cp852, cp855, cp858, cp860]

def ccsid : CodePage → Nat
  | cp037 => 37
  | cp1047 => 1047
  | cp1140 => 1140
  | cp437 => 437
  | cp850 => 850
  | cp852 => 852
  | cp855 => 855
  | cp858 => 858
  | cp860 => 860

def name : CodePage → String
  | cp037 => "CP037"
  | page => s!"CP{page.ccsid}"

def isEbcdic : CodePage → Bool
  | cp037 | cp1047 | cp1140 => true
  | _ => false

def space (page : CodePage) : UInt8 :=
  if page.isEbcdic then 0x40 else 0x20

def table : CodePage → List Char
  | cp037 => characters037
  | cp1047 => characters1047
  | cp1140 => characters1140
  | cp437 => characters437
  | cp850 => characters850
  | cp852 => characters852
  | cp855 => characters855
  | cp858 => characters858
  | cp860 => characters860

def decodeByte (page : CodePage) (b : UInt8) : Char :=
  page.table.getD b.toNat (Char.ofNat 0)

/-- The byte of a character, if the page has it. An ASCII character that stands at its own number
is found there without a search, unless the page is an EBCDIC page. -/
def encodeChar? (page : CodePage) (c : Char) : Option UInt8 :=
  if !page.isEbcdic && decide (c.toNat < 0x80) && page.table[c.toNat]? == some c then
    some (UInt8.ofNat c.toNat)
  else (page.table.idxOf? c).map UInt8.ofNat

def decode (page : CodePage) (bytes : List UInt8) : List Char :=
  bytes.map page.decodeByte

/-- The bytes of a text, or the first character that the page does not have. -/
def encode (page : CodePage) : List Char → Except Char (List UInt8)
  | [] => .ok []
  | c :: rest =>
    match page.encodeChar? c with
    | none => .error c
    | some b => (encode page rest).map (b :: ·)

end CodePage

end RecordCodec
