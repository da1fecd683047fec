import RecordCodec.Proofs.Bytes.Words
import RecordCodec.Proofs.Value.Extent

/-!
A field in a record. What a store writes, a read takes from the front of a queue again, whatever
follows, and a part of it is too short for the read.
-/
namespace RecordCodec

/-- A payload as a record has it: alone in a fixed field, behind a length header that counts itself
in a variable one. -/
def ByteOrder.frame (order : ByteOrder) (header length : Nat) (payload : List UInt8) :
    List UInt8 :=
  if length = 0 then order.encode header (payload.length + header) ++ payload else payload

theorem ByteOrder.frame_fixed {order : ByteOrder} {header length : Nat} {payload : List UInt8}
    (fixed : length ≠ 0) : order.frame header length payload = payload := by
  rw [frame, if_neg fixed]

theorem ByteOrder.frame_variable {order : ByteOrder} {header : Nat} {payload : List UInt8} :
    order.frame header 0 payload = order.encode header (payload.length + header) ++ payload := by
  rw [frame, if_pos rfl]

theorem ByteOrder.encode_one (order : ByteOrder) (n : Nat) :
    order.encode 1 n = [UInt8.ofNat n] := by
  cases order <;> rfl

theorem Chunk.append_whole (a b : List UInt8) :
    (Chunk.whole a).append (.whole b) = .whole (a ++ b) := rfl

theorem FieldType.isVariable_iff (t : FieldType) : t.isVariable = true ↔ t.length = 0 :=
  beq_iff_eq

namespace IntegerField

theorem consumes_read {width : BinaryWidth} {signed : Bool} {v : Int}
    (above : low width signed ≤ v) (below : v ≤ high width signed) (order : ByteOrder) :
    Consumes order (encode order width v) (fun _ => True) (read width signed) fun q => (v, q) := by
  have front := (Consumes.takeNat order (unsignedOf_lt width v)).map
    (Prod.map (ofNat width signed) id)
  simp only [Prod.map_apply, id] at front
  rw [ofNat_unsignedOf above below] at front
  refine front.congr fun q => ?_
  rw [read]
  cases q.takeNat width.bytes <;> rfl

end IntegerField

namespace Leaf

theorem storeShort_eq (p : Place) (payload : List UInt8) (order : ByteOrder) :
    storeShort p payload = .whole (order.frame 1 p.type.length payload) := by
  unfold storeShort
  by_cases fixed : p.type.length = 0
  · rw [if_pos (p.type.isVariable_iff.mpr fixed), fixed, ByteOrder.frame_variable,
      ByteOrder.encode_one]
    rfl
  · rw [if_neg (fun varies => fixed (p.type.isVariable_iff.mp varies)),
      ByteOrder.frame_fixed fixed]

theorem storeDecimal_fixed {p : Place} (fixed : p.type.length ≠ 0) (bytes ifEmpty : List UInt8) :
    storeDecimal p bytes ifEmpty = .whole bytes := by
  rw [storeDecimal, storeShort, FieldType.isVariable_fixed fixed]
  rfl

theorem consumes_readShort {p : Place} {payload : List UInt8}
    (extent : Occupies 1 p.type.length payload.length) (order : ByteOrder) :
    Consumes order (order.frame 1 p.type.length payload) (fun _ => True) (readShort p)
      fun q => (payload, q) := by
  by_cases fixed : p.type.length = 0
  · have varies : p.type.isVariable = true := p.type.isVariable_iff.mpr fixed
    rw [fixed] at extent
    rw [fixed, ByteOrder.frame_variable]
    have header := Consumes.takeNat order (occupies_variable.mp extent)
    refine (header.bind (fun counted => counted.2.take (counted.1 - 1))
      (Consumes.take order payload)).congr fun q => ?_
    rw [readShort, if_pos varies]
  · have whole := FieldType.isVariable_fixed fixed
    have length := (occupies_fixed fixed).mp extent
    rw [ByteOrder.frame_fixed fixed]
    refine (Consumes.take order payload).congr fun q => ?_
    rw [readShort, whole, length]
    rfl

end Leaf

namespace TextField

def payload (bytes : List UInt8) : List UInt8 :=
  if bytes.isEmpty then [0x20] else bytes

theorem occupies_payload {size : TextSize} {length : Nat} {bytes : List UInt8}
    (extent : Occupies size.header length bytes.length) :
    Occupies size.header length (payload bytes).length := by
  cases bytes with
  | cons b rest => exact extent
  | nil =>
    by_cases fixed : length = 0
    · subst fixed
      cases size <;> exact occupies_variable.mpr (by decide)
    · exact absurd ((occupies_fixed fixed).mp extent).symm fixed

theorem storeWhole_eq (order : ByteOrder) (p : Place) (size : TextSize) (bytes : List UInt8) :
    storeWhole order p size bytes = order.frame size.header p.type.length (payload bytes) := by
  unfold storeWhole
  by_cases fixed : p.type.length = 0
  · rw [if_pos (p.type.isVariable_iff.mpr fixed), fixed, ByteOrder.frame_variable]
    rfl
  · rw [if_neg (fun varies => fixed (p.type.isVariable_iff.mp varies)),
      ByteOrder.frame_fixed fixed]
    rfl

theorem consumes_readWhole {p : Place} {size : TextSize} {bytes : List UInt8}
    (extent : Occupies size.header p.type.length bytes.length) (order : ByteOrder) :
    Consumes order (order.frame size.header p.type.length bytes) (fun _ => True)
      (readWhole p size) fun q => (bytes, q) := by
  by_cases fixed : p.type.length = 0
  · have varies : p.type.isVariable = true := p.type.isVariable_iff.mpr fixed
    rw [fixed] at extent
    rw [fixed, ByteOrder.frame_variable]
    have header := Consumes.takeNat order (occupies_variable.mp extent)
    have length := header.map (Prod.map (· - size.header) id)
    simp only [Prod.map_apply, id] at length
    rw [Nat.add_sub_cancel] at length
    refine (length.bind (fun counted => counted.2.take counted.1)
      (Consumes.take order bytes)).congr fun q => ?_
    rw [readWhole, readLength, if_pos varies]
    rfl
  · have whole := FieldType.isVariable_fixed fixed
    have length := (occupies_fixed fixed).mp extent
    rw [ByteOrder.frame_fixed fixed]
    refine (Consumes.take order bytes).congr fun q => ?_
    rw [readWhole, readLength, whole, length]
    rfl

end TextField

end RecordCodec
