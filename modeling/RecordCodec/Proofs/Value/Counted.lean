import RecordCodec.Proofs.Value.Everywhere
import RecordCodec.Proofs.Value.Extent
import RecordCodec.Proofs.Value.Pieces

/-!
The sizes of large texts. Four bytes count what an assignment takes and what a record announces, and
no read takes more than was announced, so that the size of a text that moves in pieces is a word.
-/
namespace RecordCodec

/-- What a large text has and what it announces is counted by four bytes. -/
structure TextContent.Counted (c : TextContent) : Prop where
  present : c.bytes.length < Bytes.capacity 4
  announced : c.announced < Bytes.capacity 4

namespace TextField

variable {p : Place} {size : TextSize} {c : TextContent}

theorem isLob_iff : isLob p size = true ↔ size = .large ∧ p.type.length = 0 := by
  rw [isLob, Bool.and_eq_true, beq_iff_eq, beq_iff_eq]

theorem announced_assign_lt [Libraries] {unicode : Bool} {s : Scalar}
    (assigned : assign p size unicode s = .ok c) : c.announced < Bytes.capacity 4 := by
  cases s with
  | bytes | text | int | uint | float =>
    obtain ⟨_, -, assigned⟩ := Outcome.bind_ok.mp assigned
    obtain ⟨_, -, assigned⟩ := Outcome.bind_ok.mp assigned
    cases assigned
    exact Nat.mod_lt _ (by decide)

theorem counted_assign [Libraries] (lob : isLob p size = true) (whole : p.type.partialRange = none)
    {unicode : Bool} {s : Scalar} (assigned : assign p size unicode s = .ok c) : c.Counted := by
  obtain ⟨rfl, varies⟩ := isLob_iff.mp lob
  have extent := occupies_assign assigned whole
  rw [varies, occupies_variable] at extent
  have present := Nat.lt_of_le_of_lt (Nat.le_add_right c.bytes.length _) extent
  exact ⟨present, announced_assign_lt assigned⟩

theorem counted_readRest (counted : c.Counted) (missing : c.bytes.length < c.announced)
    (q : ByteQueue) : (readRest p c q).1.Counted := by
  unfold readRest
  cases taken : q.take (min (c.announced - c.bytes.length) q.remaining) with
  | error shortage => exact counted
  | ok result =>
    obtain ⟨rest, q'⟩ := result
    have length := ByteQueue.length_take taken
    have present : (c.bytes ++ rest).length < Bytes.capacity 4 := by
      have announced := counted.announced
      rw [List.length_append, length]
      omega
    dsimp only
    split <;> exact ⟨present, counted.announced⟩

theorem counted_readStart (counted : c.Counted) (r : Request) (q : ByteQueue) :
    (readStart r c q).1.Counted := by
  unfold readStart
  cases size : q.takeNat 4 with
  | error shortage => exact counted
  | ok result =>
    obtain ⟨announced, q'⟩ := result
    have word : announced < Bytes.capacity 4 := ByteQueue.takeNat_lt size
    dsimp only
    cases q'.take r.partialSize with
    | error shortage => exact ⟨counted.present, word⟩
    | ok result =>
      obtain ⟨bytes, q''⟩ := result
      dsimp only
      split
      · exact ⟨Nat.lt_of_le_of_lt (List.length_take_le ..) word, word⟩
      · rename_i more
        exact ⟨(Nat.lt_of_not_le more).trans word, word⟩

theorem counted_parse (lob : isLob p size = true) (whole : p.type.partialRange = none)
    (counted : c.Counted) (r : Request) (q : ByteQueue) : (parse p size r c q).1.Counted := by
  rw [parse, whole, lob]
  cases r.isFollowUp with
  | false => exact counted_readStart counted r q
  | true =>
    cases missing : isIncomplete p size c with
    | false => exact counted
    | true =>
      rw [isIncomplete, lob] at missing
      exact counted_readRest counted (by simpa using missing) q

end TextField

namespace Leaf

def Counted (l : Leaf) : Prop :=
  match l.content with
  | .text size _ c =>
    TextField.isLob l.place size = true → l.place.type.partialRange = none → c.Counted
  | _ => True

theorem lasting_counted [Libraries] : Lasting Counted where
  fresh p := by
    unfold fresh Content.initial
    dsimp only
    split <;> try exact trivial
    intro lob _
    rw [(TextField.isLob_iff.mp lob).2]
    exact ⟨show 0 < _ by decide, show 0 < _ by decide⟩
  assign {l l' s} _ assigned := by
    obtain ⟨content, changed, rfl⟩ := Outcome.map_ok.mp assigned
    obtain ⟨p, before⟩ := l
    cases before with
    | superDescriptor | pseudo => cases changed
    | integer | octets | float | packed | unpacked =>
      obtain ⟨_, -, rfl⟩ := Outcome.map_ok.mp changed
      exact trivial
    | text size unicode c =>
      obtain ⟨c', taken, rfl⟩ := Outcome.map_ok.mp changed
      exact fun lob whole => TextField.counted_assign lob whole taken
  parse {l} r q counted := by
    obtain ⟨p, before⟩ := l
    cases before with
    | text size unicode c =>
      exact fun lob whole => TextField.counted_parse lob whole (counted lob whole) r q
    | pseudo => exact trivial
    | integer | octets | float | packed | unpacked | superDescriptor =>
      simp only [parse]
      split
      · exact trivial
      · split
        · exact trivial
        · rename_i read
          obtain ⟨_, -, same⟩ := Outcome.map_ok.mp read
          cases same
          exact trivial
  compose _ _ _ := trivial

theorem length_lt_of_counted {l : Leaf} (typed : l.Typed) (counted : l.Counted)
    (pieced : l.isPieced = true) : l.bytes.length < UInt32.size := by
  obtain ⟨p, unicode, c, rfl, lob, whole⟩ := exists_pieced typed pieced
  exact (counted lob whole).present

end Leaf

end RecordCodec
