import RecordCodec.Charset.Label
import RecordCodec.Dump
import RecordCodec.Platform
import RecordCodec.Fault
import RecordCodec.Request

/-!
Settings of a codec: the platform, the sizes in which large texts move, and the limit of dumps. They
are read from TOML; what is not set has its usual value, and what is unknown is ignored.
-/
namespace RecordCodec

structure Settings where
  architecture : UInt8
  /-- The label of a character set. -/
  charset : Option String
  packedSigns : Option Decimal.PackedSigns
  /-- Bytes of a large text that the first read asks for. -/
  partialReadSize : Nat
  /-- Bytes of a large text that one store writes. -/
  storeChunkSize : Nat
  multipleSize : Nat
  dumpLimit : Nat
  deriving DecidableEq, Repr

namespace Settings

def usual : Settings where
  architecture := 0x20
  charset := none
  packedSigns := none
  partialReadSize := 4096
  storeChunkSize := 40960
  multipleSize := 32768
  dumpLimit := Dump.defaultLimit

open Toml (Node Entries)

def natural? (limit : Nat) : Node → Option Nat
  | .integer v => if 0 ≤ v ∧ v ≤ limit then some v.toNat else none
  | _ => none

def naturalOr? (limit usual : Nat) : Option Node → Option Nat
  | none => some usual
  | some node => natural? limit node

def label? : Option Node → Option (Option String)
  | none => some none
  | some (.string s) => some (some (String.ofList s))
  | some _ => none

/-- The fields of a record: by name in a table, by place in an array. A moment has no field of any
record. -/
def fields? (names : List String) : Node → Option (List (Option Node))
  | .table _ entries => some (names.map fun name => Entries.find? name.toList entries)
  | .array items => some ((List.range names.length).map fun i => items[i]?)
  | .tables items =>
    some ((List.range names.length).map fun i => items[i]?.map (Node.table .header))
  | .moment => some (names.map fun _ => none)
  | _ => none

def signs? : Option Node → Option (Option Decimal.PackedSigns)
  | none => some none
  | some node =>
    match fields? ["positive", "negative"] node with
    | some [some positive, some negative] => do
      let positive ← natural? 255 positive
      let negative ← natural? 255 negative
      return some ⟨UInt8.ofNat positive, UInt8.ofNat negative⟩
    | _ => none

def lobSizes? : Option Node → Option (Nat × Nat)
  | none => some (usual.partialReadSize, usual.storeChunkSize)
  | some node =>
    match fields? ["partial_read_size", "store_chunk_size"] node with
    | some [partialReadSize, storeChunkSize] => do
      let partialReadSize ← naturalOr? (UInt32.size - 1) usual.partialReadSize partialReadSize
      let storeChunkSize ← naturalOr? (UInt32.size - 1) usual.storeChunkSize storeChunkSize
      return (partialReadSize, storeChunkSize)
    | _ => none

def ofEntries? (entries : Entries) : Option Settings := do
  let entry (name : String) : Option Node := Entries.find? name.toList entries
  let architecture ← naturalOr? 255 usual.architecture.toNat (entry "architecture")
  let charset ← label? (entry "charset")
  let packedSigns ← signs? (entry "packed_signs")
  let (partialReadSize, storeChunkSize) ← lobSizes? (entry "lob")
  let multipleSize ← naturalOr? (UInt32.size - 1) usual.multipleSize (entry "multiple_size")
  let dumpLimit ← naturalOr? int64Max.toNat usual.dumpLimit (entry "dump_limit")
  return {
    architecture := UInt8.ofNat architecture
    charset, packedSigns, partialReadSize, storeChunkSize, multipleSize, dumpLimit }

def ofToml? [Libraries] (s : List Char) : Option Settings :=
  (Libraries.toml? s).bind ofEntries?

/-- The platform that the settings describe; of given signs the low half bytes count. -/
def platform (s : Settings) : Except FieldFault Platform := do
  let base := Platform.ofArchitecture s.architecture
  let base := match s.packedSigns with
    | some signs =>
      { base with packedSigns := ⟨signs.positive &&& 0x0F, signs.negative &&& 0x0F⟩ }
    | none => base
  match s.charset with
  | none => return base
  | some label =>
    let charset ← (Charset.ofLabel label).mapError .charset
    return { base with charset := some charset }

def request (s : Settings) (store : Bool) : Request where
  store := store
  call := 0
  partialSize := s.partialReadSize
  chunkSize := s.storeChunkSize
  multipleSize := s.multipleSize
  mainframe := Platform.isMainframeByte s.architecture

end Settings

end RecordCodec
