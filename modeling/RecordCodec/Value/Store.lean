import RecordCodec.Value.Tree

/-!
The record bytes that a value writes in a store request. Repeated fields take part in the first call
only, and read-only fields inside a structure never.
-/
namespace RecordCodec.Value

mutual

def store (order : ByteOrder) (r : Request) : Value → Except FieldFault Chunk
  | leaf l => l.store order r
  | node p elements =>
    if p.type.kind.isRepeated && r.isFollowUp then .ok .empty
    else storeElements order r elements

def storeElements (order : ByteOrder) (r : Request) :
    List (List Value) → Except FieldFault Chunk
  | [] => .ok .empty
  | element :: rest => do
    let first ← storeMembers order r element
    let others ← storeElements order r rest
    return first.append others

def storeMembers (order : ByteOrder) (r : Request) : List Value → Except FieldFault Chunk
  | [] => .ok .empty
  | v :: rest =>
    if v.type.isReadOnly then storeMembers order r rest
    else do
      let first ← v.store order r
      let others ← storeMembers order r rest
      return first.append others

end

end RecordCodec.Value
