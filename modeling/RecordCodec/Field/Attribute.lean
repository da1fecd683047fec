import RecordCodec.Text.Blank
import RecordCodec.Text.Number

/-!
What a field declaration adds to a kind: options with their two-letter codes, processing flags, byte
ranges, occurrences and the parts of super-descriptors.
-/
namespace RecordCodec

inductive FieldOption where
  | unique
  | nullSuppression
  | fixed
  | descriptor
  | sqlNull
  | notNull
  | highOrderFirst
  | nativeValue
  | noBlankCompression
  | hyperExit
  | periodic
  | multiple
  | longAlpha
  | largeObject
  deriving DecidableEq, Repr

namespace FieldOption

def all : List FieldOption :=
  [unique, nullSuppression, fixed, descriptor, sqlNull, notNull, highOrderFirst, nativeValue,
    noBlankCompression, hyperExit, periodic, multiple, longAlpha, largeObject]

def code : FieldOption → String
  | unique => "UQ"
  | nullSuppression => "NU"
  | fixed => "FI"
  | descriptor => "DE"
  | sqlNull => "NC"
  | notNull => "NN"
  | highOrderFirst => "HF"
  | nativeValue => "NV"
  | noBlankCompression => "NB"
  | hyperExit => "HE"
  | periodic => "PE"
  | multiple => "MU"
  | longAlpha => "LA"
  | largeObject => "LB"

def ofCode? (code : String) : Option FieldOption :=
  let wanted := (Text.trim code.toList).map Text.lowerAscii
  all.find? fun o => o.code.toList.map Text.lowerAscii == wanted

end FieldOption

inductive FieldFlag where
  /-- Member of a periodic group. -/
  | periodic
  /-- Element of a multiple-value field. -/
  | multipleElement
  /-- Left out of store requests. -/
  | toBeRemoved
  | readOnly
  /-- Restricted to a byte range. -/
  | part
  /-- One occurrence only. -/
  | singleIndex
  deriving DecidableEq, Repr

def FieldFlag.all : List FieldFlag :=
  [.periodic, .multipleElement, .toBeRemoved, .readOnly, .part, .singleIndex]

abbrev OptionSet := List FieldOption

def OptionSet.codes (options : OptionSet) : String :=
  ",".intercalate ((FieldOption.all.filter options.contains).map FieldOption.code)

abbrev FlagSet := List FieldFlag

/-- The bytes from `first` to `last` of a field, counted from one. -/
structure PartialRange where
  first : UInt32
  last : UInt32
  deriving DecidableEq, Repr

namespace PartialRange

/-- The range from `first`, at least the first byte, to `last`, at least `first`. -/
def ofBounds (first last : UInt32) : PartialRange :=
  ⟨max first 1, max last (max first 1)⟩

/-- The number of bytes, a word of four bytes: zero for a range that ends right before it starts. -/
def length (r : PartialRange) : Nat :=
  (r.last - r.first + 1).toNat

theorem length_pos {r : PartialRange} (positive : 0 < r.first) (ordered : r.first ≤ r.last) :
    0 < r.length := by
  have least := UInt32.lt_iff_toNat_lt.mp positive
  have most := r.last.toNat_lt
  have below := UInt32.le_iff_toNat_le.mp ordered
  rw [length, UInt32.toNat_add, UInt32.toNat_sub_of_le _ _ ordered, UInt32.toNat_one]
  rw [UInt32.toNat_zero] at least
  omega

theorem length_ofBounds_pos (first last : UInt32) : 0 < (ofBounds first last).length := by
  have above (a b : UInt32) : b ≤ max a b := by
    show b ≤ if a ≤ b then b else a
    split
    · exact UInt32.le_refl b
    · exact UInt32.le_of_lt (UInt32.not_le.mp ‹_›)
  exact length_pos (UInt32.lt_of_lt_of_le (by decide) (above first 1)) (above last _)

def suffix (r : PartialRange) : String :=
  s!"({r.first},{r.length})"

end PartialRange

/-- Which occurrences of a repeated field a request addresses, counted from one. -/
inductive Occurrence where
  /-- The field does not repeat. -/
  | single
  | all
  | index (i : UInt32)
  | range (first last : UInt32)
  deriving DecidableEq, Repr

namespace Occurrence

def suffix : Occurrence → String
  | single => ""
  | all => "1-N"
  | index i => toString i
  | range first last => s!"{first}-{last}"

def first : Occurrence → UInt32
  | index i => i
  | range first _ => first
  | _ => 1

/-- The number of the occurrence behind `k` others in a record. The numbers are words of four bytes,
so that zero comes after the greatest one. -/
def number (o : Occurrence) (k : Nat) : Nat :=
  (o.first.toNat + k) % UInt32.size

theorem number_of_lt {o : Occurrence} {k : Nat} (fits : o.first.toNat + k < UInt32.size) :
    o.number k = o.first.toNat + k :=
  Nat.mod_eq_of_lt fits

theorem number_zero (o : Occurrence) : o.number 0 = o.first.toNat :=
  number_of_lt o.first.toNat_lt

end Occurrence

/-- The bytes from `first` to `last` of the field `parent`, counted from one. -/
structure SuperEntry where
  parent : String
  first : Nat
  last : Nat
  deriving DecidableEq, Repr

namespace SuperEntry

/-- The bytes from the first to the last; none when the entry ends before it starts. -/
def extent (e : SuperEntry) : Nat :=
  e.last + 1 - e.first

/-- The length that an entry declares. The byte behind the last one is counted in a word of four
bytes. -/
def length (e : SuperEntry) : Nat :=
  (e.last + 1) % UInt32.size - e.first

end SuperEntry

end RecordCodec
