import RecordCodec.Field.Attribute
import RecordCodec.Field.Kind

/-!
Field types: the static description of a field and, for a structure, of the fields in it.
-/
namespace RecordCodec

structure FieldType where
  kind : FieldKind
  shortName : String
  name : String
  /-- The declared length; zero means variable. -/
  length : Nat
  /-- The number of digits behind the decimal point. -/
  fraction : Nat
  options : OptionSet
  flags : FlagSet
  charset : Option Charset
  partialRange : Option PartialRange
  children : List FieldType
  occurrence : Occurrence
  superEntries : List SuperEntry
  deriving Repr

namespace FieldType

def kindOptions : FieldKind → OptionSet
  | .text .long _ => [.longAlpha]
  | .text .large _ => [.largeObject]
  | _ => []

def kindFlags : FieldKind → FlagSet
  | .superDescriptor | .pseudo _ => [.readOnly]
  | _ => []

def ofKind (kind : FieldKind) (shortName : String) : FieldType where
  kind := kind
  shortName := shortName
  name := shortName
  length := kind.defaultLength
  fraction := 0
  options := kindOptions kind
  flags := kindFlags kind
  charset := none
  partialRange := none
  children := []
  occurrence := .single
  superEntries := []

def formatChar (t : FieldType) : Char :=
  t.kind.formatChar

def hasOption (t : FieldType) (o : FieldOption) : Bool :=
  t.options.contains o

def hasFlag (t : FieldType) (f : FieldFlag) : Bool :=
  t.flags.contains f

def withOption (t : FieldType) (o : FieldOption) : FieldType :=
  { t with options := t.options.insert o }

def withFlag (t : FieldType) (f : FieldFlag) : FieldType :=
  { t with flags := t.flags.insert f }

def withPartial (t : FieldType) (r : PartialRange) : FieldType :=
  { t with partialRange := some r, flags := t.flags.insert .part }

def withOccurrence (t : FieldType) (o : Occurrence) : FieldType :=
  match o with
  | .index _ => { t with occurrence := o, flags := t.flags.insert .singleIndex }
  | _ => { t with occurrence := o }

def isDescriptor (t : FieldType) : Bool :=
  t.hasOption .descriptor || t.hasOption .unique || t.kind == .superDescriptor

def isVariable (t : FieldType) : Bool :=
  t.length == 0

def isReadOnly (t : FieldType) : Bool :=
  t.hasFlag .readOnly

def isLob (t : FieldType) : Bool :=
  match t.kind with
  | .text .large _ => t.length == 0
  | _ => false

def element? (t : FieldType) : Option FieldType :=
  match t.kind with
  | .multiple => t.children.head?
  | _ => none

mutual

def walk (t : FieldType) : List FieldType :=
  match t with
  | { children := children, .. } => t :: walkAll children

def walkAll : List FieldType → List FieldType
  | [] => []
  | t :: rest => t.walk ++ walkAll rest

end

mutual

def addFlagDeep (flag : FieldFlag) (t : FieldType) : FieldType :=
  match t with
  | { children := children, .. } =>
    { t with flags := t.flags.insert flag, children := addFlagDeepAll flag children }

def addFlagDeepAll (flag : FieldFlag) : List FieldType → List FieldType
  | [] => []
  | t :: rest => t.addFlagDeep flag :: addFlagDeepAll flag rest

end

def group (shortName : String) (children : List FieldType) : FieldType :=
  { ofKind .group shortName with children }

def periodic (shortName : String) (children : List FieldType) : FieldType :=
  { ofKind .periodicGroup shortName with
    options := [.periodic]
    children := addFlagDeepAll .periodic children
    occurrence := .all }

/-- A multiple-value field of all occurrences. It has the names, the length and the options of its
element, and the element is flagged. -/
def multiple (element : FieldType) : FieldType :=
  { ofKind .multiple element.shortName with
    name := element.name
    length := element.length
    options := element.options.insert .multiple
    children := [element.withFlag .multipleElement]
    occurrence := .all }

/-- The bytes of all entries of a super-descriptor, added up in a word of four bytes. -/
def superLength (entries : List SuperEntry) : Nat :=
  entries.foldr (fun entry total => (entry.length + total) % UInt32.size) 0

def superDescriptor (shortName : String) (entries : List SuperEntry) : FieldType :=
  { ofKind .superDescriptor shortName with
    options := [.descriptor]
    flags := [.readOnly, .toBeRemoved]
    length := superLength entries
    superEntries := entries }

def addSuperEntry (t : FieldType) (e : SuperEntry) : FieldType :=
  let entries := t.superEntries ++ [e]
  { t with superEntries := entries, length := superLength entries }

/-- The declaration in one line: names, length and format of a field with data, and options. -/
def text (t : FieldType) : String :=
  let layout := if t.kind.isStructure then "" else s!",{t.length},{t.formatChar}"
  let codes := OptionSet.codes t.options
  s!"{t.shortName}={t.name}{layout}" ++ if codes.isEmpty then "" else "," ++ codes

end FieldType

end RecordCodec
