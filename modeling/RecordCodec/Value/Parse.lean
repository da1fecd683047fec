import RecordCodec.Value.Tree

/-!
Reading a value from a record. The fields of a group are read in place, so that those before a
failure keep what was read; the occurrences of a repeated field replace the old ones only when all
of them could be read.
-/
namespace RecordCodec

/-- What is left of a record, and whether some field needs another call. -/
structure Remainder where
  queue : ByteQueue
  followUp : FollowUp

def readOccurrences {α : Type} (read : Nat → ByteQueue → Except FieldFault (α × Remainder)) :
    Nat → Nat → ByteQueue → Except FieldFault (List α × Remainder)
  | 0, _, q => .ok ([], ⟨q, .none⟩)
  | count + 1, k, q => do
    let (first, after) ← read k q
    let (others, left) ← readOccurrences read count (k + 1) after.queue
    return (first :: others, ⟨left.queue, after.followUp.join left.followUp⟩)

/-- The number of occurrences that follow in a record. One that is asked for by its number has no
count in front of it. -/
def Place.occurrenceCount (p : Place) (q : ByteQueue) : Except Shortage (Nat × ByteQueue) :=
  match p.type.occurrence with
  | .index _ => .ok (1, q)
  | _ => q.takeNat 4

/-- Reads the elements of a repeated field; `read` reads the values of the one with a number. -/
def Place.readElements (p : Place) (q : ByteQueue)
    (read : Nat → ByteQueue → Except FieldFault (List Value × Remainder)) :
    Except FieldFault (List (List Value) × Remainder) :=
  match p.occurrenceCount q with
  | .error shortage => .error (.shortBuffer shortage)
  | .ok (count, q') => readOccurrences (fun k => read (p.type.occurrence.number k)) count 0 q'

mutual

def FieldType.readAt (r : Request) (platform : Platform) (periodicIndex multipleIndex : Nat)
    (q : ByteQueue) (t : FieldType) : Except FieldFault (Value × Remainder) :=
  match t with
  | { kind := kind, children := children, .. } =>
    let place : Place := ⟨t, platform, periodicIndex, multipleIndex⟩
    match kind with
    | .group => do
      let (members, left) ← readMembers r platform periodicIndex 0 q children
      return (.node place [members], left)
    | .periodicGroup =>
      if r.isFollowUp then .ok (.node place [], ⟨q, .none⟩)
      else do
        let (elements, left) ← place.readElements q fun index q =>
          readMembers r platform index 0 q children
        return (.node place elements, left)
    | .multiple =>
      if r.isFollowUp then .ok (.node place [], ⟨q, .none⟩)
      else do
        let (elements, left) ← place.readElements q fun index q =>
          readMembers r platform periodicIndex index q children
        return (.node place elements, left)
    | _ =>
      match (Leaf.fresh place).parse r q with
      | (_, .error fault) => .error fault
      | (l, .ok progress) => .ok (.leaf l, ⟨progress.queue, progress.followUp⟩)

def FieldType.readMembers (r : Request) (platform : Platform) (periodicIndex multipleIndex : Nat)
    (q : ByteQueue) (types : List FieldType) : Except FieldFault (List Value × Remainder) :=
  match types with
  | [] => .ok ([], ⟨q, .none⟩)
  | t :: rest => do
    let (v, after) ← t.readAt r platform periodicIndex multipleIndex q
    let (others, left) ← readMembers r platform periodicIndex multipleIndex after.queue rest
    return (v :: others, ⟨left.queue, after.followUp.join left.followUp⟩)

end

def Place.readRepeated (p : Place) (r : Request) (q : ByteQueue) :
    Except FieldFault (List (List Value) × Remainder) :=
  p.readElements q fun index q =>
    let (periodicIndex, multipleIndex) := p.elementIndexes index
    FieldType.readMembers r p.platform periodicIndex multipleIndex q p.type.children

namespace Value

mutual

def parse (r : Request) (q : ByteQueue) : Value → Value × Except FieldFault Progress
  | leaf l =>
    let (l, outcome) := l.parse r q
    (leaf l, outcome)
  | node p elements =>
    if !p.type.kind.isRepeated then
      match parseElements r q elements with
      | (elements, .error fault) => (node p elements, .error fault)
      | (elements, .ok left) => (node p elements, .ok ⟨left.queue, true, left.followUp⟩)
    else if r.isFollowUp then (node p elements, .ok (.skipped q))
    else
      match p.readRepeated r q with
      | .error fault => (node p elements, .error fault)
      | .ok (elements, left) => (node p elements, .ok ⟨left.queue, true, left.followUp⟩)

def parseElements (r : Request) (q : ByteQueue) :
    List (List Value) → List (List Value) × Except FieldFault Remainder
  | [] => ([], .ok ⟨q, .none⟩)
  | element :: rest =>
    match parseMembers r q element with
    | (element, .error fault) => (element :: rest, .error fault)
    | (element, .ok after) =>
      match parseElements r after.queue rest with
      | (rest, .error fault) => (element :: rest, .error fault)
      | (rest, .ok left) =>
        (element :: rest, .ok ⟨left.queue, after.followUp.join left.followUp⟩)

def parseMembers (r : Request) (q : ByteQueue) :
    List Value → List Value × Except FieldFault Remainder
  | [] => ([], .ok ⟨q, .none⟩)
  | v :: rest =>
    match v.parse r q with
    | (v, .error fault) => (v :: rest, .error fault)
    | (v, .ok progress) =>
      match parseMembers r progress.queue rest with
      | (rest, .error fault) => (v :: rest, .error fault)
      | (rest, .ok left) =>
        (v :: rest, .ok ⟨left.queue, progress.followUp.join left.followUp⟩)

end

end Value

end RecordCodec
