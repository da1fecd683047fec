import RecordCodec.Fault

/-!
The kinds of fields, and what follows from a kind alone: the format character, the length of a field
declared without one, and the length header of a variable field.
-/
namespace RecordCodec

inductive BinaryWidth where
  | one
  | two
  | four
  | eight
  deriving DecidableEq, Repr

def BinaryWidth.bytes : BinaryWidth → Nat
  | one => 1
  | two => 2
  | four => 4
  | eight => 8

inductive PackedContent where
  | number
  /-- A day number. -/
  | date
  /-- Tenths of a second. -/
  | time
  deriving DecidableEq, Repr

inductive TextSize where
  | short
  | long
  /-- Large enough to be moved in pieces. -/
  | large
  deriving DecidableEq, Repr

def TextSize.header : TextSize → Nat
  | short => 1
  | long => 2
  | large => 4

/-- Descriptors of the database that hold no data of a record. -/
inductive PseudoKind where
  | phonetic
  | collation
  | hyperExit
  | referential
  deriving DecidableEq, Repr

inductive FieldKind where
  | binary (width : BinaryWidth) (signed : Bool)
  /-- Raw bytes. -/
  | octets
  /-- A floating point number of four bytes, or of eight. -/
  | float (wide : Bool)
  | packed (content : PackedContent)
  /-- Zoned decimals. -/
  | unpacked
  /-- Text in the character set of the field or, when `unicode`, in UTF-8. -/
  | text (size : TextSize) (unicode : Bool)
  | group
  /-- A group that repeats. -/
  | periodicGroup
  /-- A field that repeats. -/
  | multiple
  /-- Parts of other fields, one after another. -/
  | superDescriptor
  | pseudo (kind : PseudoKind)
  deriving DecidableEq, Repr

namespace FieldKind

def formatChar : FieldKind → Char
  | binary _ false | octets => 'B'
  | binary _ true => 'F'
  | float _ => 'G'
  | packed _ => 'P'
  | unpacked => 'U'
  | text _ true => 'W'
  | text _ false | superDescriptor => 'A'
  | pseudo .referential => ' '
  | pseudo _ => 'A'
  | group | periodicGroup | multiple => ' '

theorem formatChar_ne_comma (kind : FieldKind) : kind.formatChar ≠ ',' := by
  unfold formatChar
  split <;> decide

def defaultLength : FieldKind → Nat
  | binary width _ => width.bytes
  | octets => 126
  | float false => 4
  | float true => 8
  | packed .number => 1
  | packed .date => 4
  | packed .time => 7
  | unpacked => 1
  | text .short _ => 1
  | text _ _ => 0
  | group | periodicGroup | multiple | superDescriptor => 0
  | pseudo .referential => 0
  | pseudo _ => 1

def binary? : FieldKind → Option (BinaryWidth × Bool)
  | binary width signed => some (width, signed)
  | _ => none

def isStructure : FieldKind → Bool
  | group | periodicGroup | multiple => true
  | _ => false

def isPseudo : FieldKind → Bool
  | pseudo _ => true
  | _ => false

def isRepeated : FieldKind → Bool
  | periodicGroup | multiple => true
  | _ => false

def lengthHeader : FieldKind → Nat
  | text size _ => size.header
  | _ => 1

def variableReadLength : FieldKind → Nat
  | text .long _ => 1114
  | text .large _ => 16381
  | packed _ => 15
  | unpacked => 29
  | _ => 253

def widthOf? : Nat → Option BinaryWidth
  | 1 => some .one
  | 2 => some .two
  | 4 => some .four
  | 8 => some .eight
  | _ => none

def ofBinaryLength (signed : Bool) (length : Nat) : FieldKind :=
  match widthOf? length with
  | some width => binary width signed
  | none => octets

def ofFormat (format : Char) (length : Nat) : Except FieldFault FieldKind :=
  match format with
  | 'A' => .ok (text .short false)
  | 'W' => .ok (text .short true)
  | 'P' => .ok (packed .number)
  | 'D' => .ok (packed .date)
  | 'T' => .ok (packed .time)
  | 'U' => .ok unpacked
  | 'B' => .ok (ofBinaryLength false length)
  | 'F' => .ok (ofBinaryLength true length)
  | 'G' =>
    if length = 4 then .ok (float false)
    else if length = 8 then .ok (float true)
    else .error (.unknownFormat format length)
  | _ => .error (.unknownFormat format length)

end FieldKind

end RecordCodec
