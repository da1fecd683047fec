import RecordCodec.Bytes.Queue
import RecordCodec.Proofs.Outcome

/-!
Readers of a byte queue that take one byte string exactly. Such a reader accepts the whole string,
whatever follows, and no proper beginning of it; readers one after another take their strings one
after another.
-/
namespace RecordCodec

variable {ε δ α β γ : Type} {order : ByteOrder}

/-- A reader takes `layout` from the front of any queue and leaves `result` of the rest. Where the
end of `layout` is missing it fails with a `short` fault. -/
structure Consumes (order : ByteOrder) (layout : List UInt8) (short : ε → Prop)
    (read : ByteQueue → Except ε β) (result : ByteQueue → β) : Prop where
  whole : ∀ taken rest, read ⟨order, taken, layout ++ rest⟩ =
    .ok (result ⟨order, layout.reverse ++ taken, rest⟩)
  cut : ∀ taken front behind, layout = front ++ behind → behind ≠ [] →
    ∃ fault, read ⟨order, taken, front⟩ = .error fault ∧ short fault

namespace Consumes

theorem nothing (short : ε → Prop) (result : ByteQueue → β) :
    Consumes order [] short (fun q => .ok (result q)) result where
  whole _ _ := rfl
  cut := by
    intro taken front behind parts given
    exact absurd (List.append_eq_nil_iff.mp parts.symm).2 given

/-- A beginning of two strings ends in the first one, or behind it and in the second one. -/
theorem bind {first second : List UInt8} {short : ε → Prop} {read : ByteQueue → Except ε α}
    {here : ByteQueue → α} {result : ByteQueue → β}
    (takes : Consumes order first short read here) (next : α → Except ε β)
    (later : Consumes order second short (fun q => next (here q)) result) :
    Consumes order (first ++ second) short (fun q => read q >>= next) result where
  whole := by
    intro taken rest
    show read _ >>= next = _
    rw [List.append_assoc, takes.whole, List.reverse_append, List.append_assoc]
    exact later.whole _ rest
  cut := by
    intro taken front behind parts given
    obtain ⟨middle, same, rfl⟩ | ⟨middle, rfl, same⟩ := List.append_eq_append_iff.mp parts
    · obtain ⟨fault, failed, is_short⟩ := later.cut (first.reverse ++ taken) middle behind rfl given
      refine ⟨fault, ?_, is_short⟩
      show read _ >>= next = _
      rw [same, takes.whole]
      exact failed
    · by_cases none : middle = []
      · subst none
        obtain ⟨fault, failed, is_short⟩ := later.cut (front.reverse ++ taken) [] second rfl
          (by rwa [same] at given)
        refine ⟨fault, ?_, is_short⟩
        have whole := takes.whole taken []
        rw [List.append_nil, List.append_nil] at whole
        show read _ >>= next = _
        rw [whole]
        exact failed
      · obtain ⟨fault, failed, is_short⟩ := takes.cut taken front middle rfl none
        refine ⟨fault, ?_, is_short⟩
        show read _ >>= next = _
        rw [failed]
        rfl

theorem map {layout : List UInt8} {short : ε → Prop} {read : ByteQueue → Except ε α}
    {result : ByteQueue → α} (takes : Consumes order layout short read result) (f : α → β) :
    Consumes order layout short (fun q => (read q).map f) (fun q => f (result q)) where
  whole := by
    intro taken rest
    show (read _).map f = _
    rw [takes.whole]
    rfl
  cut := by
    intro taken front behind parts given
    obtain ⟨fault, failed, is_short⟩ := takes.cut taken front behind parts given
    refine ⟨fault, ?_, is_short⟩
    show (read _).map f = _
    rw [failed]
    rfl

theorem mapError {layout : List UInt8} {short : ε → Prop} {wide : δ → Prop}
    {read : ByteQueue → Except ε α} {result : ByteQueue → α}
    (takes : Consumes order layout short read result) (f : ε → δ)
    (widens : ∀ fault, short fault → wide (f fault)) :
    Consumes order layout wide (fun q => (read q).mapError f) result where
  whole := by
    intro taken rest
    show (read _).mapError f = _
    rw [takes.whole]
    rfl
  cut := by
    intro taken front behind parts given
    obtain ⟨fault, failed, is_short⟩ := takes.cut taken front behind parts given
    refine ⟨f fault, ?_, widens fault is_short⟩
    show (read _).mapError f = _
    rw [failed]
    rfl

theorem congr {layout : List UInt8} {short : ε → Prop} {read read' : ByteQueue → Except ε β}
    {result : ByteQueue → β} (takes : Consumes order layout short read result)
    (same : ∀ q, read' q = read q) : Consumes order layout short read' result := by
  have equal : read' = read := funext same
  rw [equal]
  exact takes

theorem take (order : ByteOrder) (bytes : List UInt8) :
    Consumes order bytes (fun _ => True) (ByteQueue.take bytes.length) fun q => (bytes, q) where
  whole := by
    intro taken rest
    simp [ByteQueue.take]
  cut := by
    intro taken front behind parts given
    have longer : front.length ≠ bytes.length := by
      rw [parts, List.length_append]
      have := List.length_pos_iff.mpr given
      omega
    refine ⟨⟨bytes.length, front.length⟩, ?_, trivial⟩
    have short : (front.take bytes.length).length = front.length := by
      rw [parts, List.length_take, List.length_append]
      omega
    rw [ByteQueue.take]
    dsimp only
    rw [short, if_neg longer]
    rfl

theorem takeNat (order : ByteOrder) {width n : Nat} (counted : n < Bytes.capacity width) :
    Consumes order (order.encode width n) (fun _ => True) (ByteQueue.takeNat width)
      fun q => (n, q) := by
  have bytes := take order (order.encode width n)
  rw [ByteOrder.length_encode] at bytes
  constructor
  · intro taken rest
    have front := bytes.whole taken rest
    rw [ByteQueue.takeNat, front]
    show Except.ok (order.decode (order.encode width n), _) = _
    rw [ByteOrder.decode_encode, Nat.mod_eq_of_lt counted]
  · intro taken front behind parts given
    obtain ⟨fault, failed, -⟩ := bytes.cut taken front behind parts given
    refine ⟨fault, ?_, trivial⟩
    rw [ByteQueue.takeNat, failed]
    rfl

end Consumes

theorem ByteQueue.length_take {n : Nat} {q q' : ByteQueue} {bytes : List UInt8}
    (h : q.take n = .ok (bytes, q')) : bytes.length = n := by
  unfold take at h
  dsimp only at h
  split at h
  · rename_i whole
    cases h
    exact whole
  · cases h

theorem ByteQueue.takeNat_lt {width n : Nat} {q q' : ByteQueue}
    (h : q.takeNat width = .ok (n, q')) : n < Bytes.capacity width := by
  obtain ⟨⟨bytes, behind⟩, taken, same⟩ := Outcome.bind_ok.mp h
  cases same
  rw [← ByteQueue.length_take taken]
  exact q.order.decode_lt bytes

end RecordCodec
