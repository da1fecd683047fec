import RecordCodec.Proofs.Bytes.Words

/-!
What passes through a byte queue. Whatever is put and received, and in whatever order, the bytes
that come out are a beginning of those that were there at the start and those put since. A number of
a word is as good as its bytes, so an item comes out as it was put if it is asked for in the same
shape.
-/
namespace RecordCodec.ByteQueue

/-- What a reader asks for: a number of a word, or so many bytes. -/
inductive Shape where
  | integer (width : BinaryWidth) (signed : Bool)
  | raw (length : Nat)
  deriving DecidableEq, Repr

/-- What is put and received. A floating point number is the unsigned word of its bits. -/
inductive Item where
  | integer (width : BinaryWidth) (signed : Bool) (v : Int)
  | raw (bytes : List UInt8)
  deriving DecidableEq, Repr

namespace Item

def shape : Item → Shape
  | integer width signed _ => .integer width signed
  | raw bytes => .raw bytes.length

def Held : Item → Prop
  | integer width signed v => InWord width.bytes signed v
  | raw _ => True

instance : DecidablePred Held
  | integer width signed v => inferInstanceAs (Decidable (InWord width.bytes signed v))
  | raw _ => inferInstanceAs (Decidable True)

def layout (order : ByteOrder) : Item → List UInt8
  | integer width _ v => IntegerField.encode order width v
  | raw bytes => bytes

def put : Item → ByteQueue → ByteQueue
  | integer width _ v, q => q.putInt width.bytes v
  | raw bytes, q => q.put bytes

end Item

namespace Shape

def length : Shape → Nat
  | integer width _ => width.bytes
  | raw length => length

def take : Shape → ByteQueue → Except Shortage (Item × ByteQueue)
  | integer width true, q => (q.takeInt width.bytes).map fun (v, q') => (.integer width true v, q')
  | integer width false, q =>
    (q.takeNat width.bytes).map fun (n, q') => (.integer width false n, q')
  | raw length, q => (q.take length).map fun (bytes, q') => (.raw bytes, q')

def read (order : ByteOrder) (bytes : List UInt8) : Shape → Item
  | integer width signed =>
    .integer width signed (IntegerField.ofNat width signed (order.decode bytes))
  | raw _ => .raw bytes

end Shape

/-! ### Items and their bytes -/

theorem Item.put_eq (item : Item) (q : ByteQueue) :
    item.put q = { q with rest := q.rest ++ item.layout q.order } := by
  cases item <;> rfl

theorem Item.length_layout (order : ByteOrder) (item : Item) :
    (item.layout order).length = item.shape.length := by
  cases item with
  | integer width signed v => exact ByteOrder.length_encode ..
  | raw bytes => rfl

theorem Item.read_layout (order : ByteOrder) {item : Item} (held : item.Held) :
    item.shape.read order (item.layout order) = item := by
  cases item with
  | integer width signed v =>
    obtain ⟨above, below⟩ := inWord_width.mp held
    have bits : order.decode (IntegerField.encode order width v) = unsignedOf width.bytes v := by
      rw [IntegerField.encode, ByteOrder.decode_encode,
        Nat.mod_eq_of_lt (IntegerField.unsignedOf_lt width v)]
    show Item.integer width signed (IntegerField.ofNat width signed (order.decode
      (IntegerField.encode order width v))) = _
    rw [bits, IntegerField.ofNat_unsignedOf above below]
  | raw bytes => rfl

theorem Shape.read_spec (order : ByteOrder) {shape : Shape} {bytes : List UInt8}
    (length : bytes.length = shape.length) :
    (shape.read order bytes).shape = shape ∧ (shape.read order bytes).Held ∧
      (shape.read order bytes).layout order = bytes := by
  cases shape with
  | integer width signed =>
    have word : order.decode bytes < Bytes.capacity width.bytes := by
      have bound := order.decode_lt bytes
      rwa [length] at bound
    refine ⟨rfl, IntegerField.inWord_ofNat word, ?_⟩
    show order.encode width.bytes (unsignedOf width.bytes (IntegerField.ofNat ..)) = bytes
    rw [IntegerField.unsignedOf_ofNat word, show width.bytes = bytes.length from length.symm]
    exact order.encode_decode bytes
  | raw n =>
    have length : bytes.length = n := length
    exact ⟨congrArg Shape.raw length, trivial, rfl⟩

/-- Items in the same shapes as others, with bytes that are a beginning of theirs, are a beginning
of the others. -/
theorem Item.isPrefix_of_layout (order : ByteOrder) {items sent : List Item}
    (held : ∀ item ∈ items, item.Held) (held' : ∀ item ∈ sent, item.Held)
    (shapes : items.map Item.shape <+: sent.map Item.shape)
    (bytes : items.flatMap (Item.layout order) <+: sent.flatMap (Item.layout order)) :
    items <+: sent := by
  induction items generalizing sent with
  | nil => exact List.nil_prefix
  | cons item items ih =>
    cases sent with
    | nil => simp at shapes
    | cons first sent =>
      obtain ⟨shape, shapes⟩ := List.cons_prefix_cons.mp shapes
      obtain ⟨behind, whole⟩ := bytes
      have length : (item.layout order).length = (first.layout order).length := by
        rw [Item.length_layout, Item.length_layout, shape]
      rw [List.flatMap_cons, List.flatMap_cons, List.append_assoc] at whole
      obtain ⟨same, bytes⟩ := List.append_inj whole length
      have equal : item = first := by
        rw [← Item.read_layout order (held item (List.mem_cons_self ..)), shape, same,
          Item.read_layout order (held' first (List.mem_cons_self ..))]
      rw [equal]
      exact (List.prefix_cons_inj first).mpr
        (ih (fun i hi => held i (List.mem_cons_of_mem _ hi))
          (fun i hi => held' i (List.mem_cons_of_mem _ hi)) shapes ⟨behind, bytes⟩)

/-! ### One operation -/

inductive Operation where
  | put (item : Item)
  | receive (shape : Shape)
  deriving DecidableEq, Repr

namespace Operation

def skip (n : Nat) : Operation :=
  receive (.raw n)

def needs : Operation → Nat
  | put _ => 0
  | receive shape => shape.length

def written (order : ByteOrder) : Operation → List UInt8
  | put item => item.layout order
  | receive _ => []

def step : Operation → ByteQueue → Except FieldFault (Option Item) × ByteQueue
  | put item, q => (.ok none, item.put q)
  | receive shape, q =>
    match shape.take q with
    | .ok (item, q') => (.ok (some item), q')
    | .error shortage => (.error (.shortBuffer shortage), q)

end Operation

theorem take_cases (n : Nat) (q : ByteQueue) :
    (∃ bytes rest, bytes.length = n ∧ q.rest = bytes ++ rest ∧
      q.take n = .ok (bytes, ⟨q.order, bytes.reverse ++ q.taken, rest⟩)) ∨
    (q.remaining < n ∧ q.take n = .error ⟨n, q.remaining⟩) := by
  by_cases enough : n ≤ q.remaining
  · have whole : (q.rest.take n).length = n := List.length_take_of_le enough
    exact .inl ⟨q.rest.take n, q.rest.drop n, whole, (List.take_append_drop ..).symm, if_pos whole⟩
  · have short : (q.rest.take n).length ≠ n := by
      rw [List.length_take]
      exact fun same => enough (same ▸ Nat.min_le_right ..)
    exact .inr ⟨Nat.lt_of_not_le enough, if_neg short⟩

theorem Shape.take_eq (shape : Shape) (q : ByteQueue) :
    shape.take q = (q.take shape.length).map fun (bytes, q') => (shape.read q.order bytes, q') := by
  cases shape with
  | integer width signed =>
    show Shape.take _ q = (q.take width.bytes).map _
    cases signed <;> simp only [Shape.take, takeInt, takeNat] <;>
      cases q.take width.bytes <;> rfl
  | raw length => rfl

/-- All that an operation can do: a put appends its item; what is received stands at the front; and
where too little is left, nothing happens. -/
theorem Operation.step_cases (op : Operation) (q : ByteQueue) :
    (∃ item, op = .put item ∧
      op.step q = (.ok none, { q with rest := q.rest ++ item.layout q.order })) ∨
    (∃ item rest, op = .receive item.shape ∧ item.Held ∧
      q.rest = item.layout q.order ++ rest ∧
      op.step q =
        (.ok (some item), ⟨q.order, (item.layout q.order).reverse ++ q.taken, rest⟩)) ∨
    (q.remaining < op.needs ∧
      op.step q = (.error (.shortBuffer ⟨op.needs, q.remaining⟩), q)) := by
  cases op with
  | put item => exact .inl ⟨item, rfl, by rw [step, item.put_eq]⟩
  | receive shape =>
    rcases take_cases shape.length q with ⟨bytes, rest, length, front, taken⟩ | ⟨short, failed⟩
    · obtain ⟨same, held, layout⟩ := Shape.read_spec q.order length
      refine .inr (.inl ⟨shape.read q.order bytes, rest, by rw [same], held, ?_, ?_⟩)
      · rw [layout]
        exact front
      · rw [step, Shape.take_eq, taken, layout]
        rfl
    · refine .inr (.inr ⟨short, ?_⟩)
      rw [step, Shape.take_eq, failed]
      rfl

theorem Operation.step_receive {q : ByteQueue} {item : Item} (held : item.Held)
    {rest : List UInt8} (front : q.rest = item.layout q.order ++ rest) :
    (receive item.shape).step q =
      (.ok (some item), ⟨q.order, (item.layout q.order).reverse ++ q.taken, rest⟩) := by
  have length := item.length_layout q.order
  rcases (receive item.shape).step_cases q with
    ⟨put, other, -⟩ | ⟨item', rest', shape, held', front', step⟩ | ⟨short, -⟩
  · cases other
  · have shape : item.shape = item'.shape := Operation.receive.inj shape
    have length' := item'.length_layout q.order
    obtain ⟨same, rfl⟩ := List.append_inj (front.symm.trans front')
      (by rw [length, length', shape])
    have equal : item = item' := by
      rw [← Item.read_layout q.order held, shape, same, Item.read_layout q.order held']
    rw [step, equal]
  · have short : q.remaining < item.shape.length := short
    rw [remaining, front, List.length_append, length] at short
    omega

/-! ### Runs -/

def after (ops : List Operation) (q : ByteQueue) : ByteQueue :=
  ops.foldl (fun q op => (op.step q).2) q

def written (order : ByteOrder) (ops : List Operation) : List UInt8 :=
  ops.flatMap (Operation.written order)

def replies : List Operation → ByteQueue → List (Except FieldFault (Option Item))
  | [], _ => []
  | op :: ops, q => (op.step q).1 :: replies ops (op.step q).2

def received (ops : List Operation) (q : ByteQueue) : List Item :=
  (replies ops q).filterMap fun reply => reply.toOption.join

theorem replies_append (ops ops' : List Operation) (q : ByteQueue) :
    replies (ops ++ ops') q = replies ops q ++ replies ops' (after ops q) := by
  induction ops generalizing q with
  | nil => rfl
  | cons op ops ih => exact congrArg (_ :: ·) (ih (op.step q).2)

theorem received_append (ops ops' : List Operation) (q : ByteQueue) :
    received (ops ++ ops') q = received ops q ++ received ops' (after ops q) := by
  rw [received, replies_append, List.filterMap_append]
  rfl

/-- The bytes of an operation: what it writes goes to the end, and what it receives, an item within
its word, goes from the front to what has been taken. -/
theorem Operation.step_conserves (op : Operation) (q : ByteQueue) :
    (op.step q).2.order = q.order ∧
      (op.step q).2.toList = q.toList ++ op.written q.order ∧
      (op.step q).2.taken.reverse =
        q.taken.reverse ++ (received [op] q).flatMap (Item.layout q.order) ∧
      ∀ item ∈ received [op] q, item.Held := by
  rcases op.step_cases q with
    ⟨item, rfl, step⟩ | ⟨item, rest, rfl, held, front, step⟩ | ⟨-, step⟩
  · simp [received, replies, step, toList, written, Except.toOption]
  · simp [received, replies, step, toList, written, Except.toOption, front, held]
  · cases op with
    | put item => cases step
    | receive shape => simp [received, replies, step, written, Except.toOption]

/-- A run appends what it writes, and moves the items that it receives from the front to what has
been taken. -/
theorem run_conserves (ops : List Operation) (q : ByteQueue) :
    (after ops q).order = q.order ∧
      (after ops q).toList = q.toList ++ written q.order ops ∧
      (after ops q).taken.reverse =
        q.taken.reverse ++ (received ops q).flatMap (Item.layout q.order) ∧
      ∀ item ∈ received ops q, item.Held := by
  induction ops generalizing q with
  | nil => simp [after, written, received, replies]
  | cons op ops ih =>
    obtain ⟨order, stream, taken, held⟩ := op.step_conserves q
    obtain ⟨order', stream', taken', held'⟩ := ih (op.step q).2
    have later : after (op :: ops) q = after ops (op.step q).2 := rfl
    have both : received (op :: ops) q = received [op] q ++ received ops (op.step q).2 :=
      received_append [op] ops q
    rw [later, both, order', stream', taken', order, stream, taken]
    refine ⟨rfl, by simp [written], by simp, ?_⟩
    intro item given
    rcases List.mem_append.mp given with here | there
    · exact held item here
    · exact held' item there

theorem replies_put_receive {items : List Item} (held : ∀ item ∈ items, item.Held)
    (q : ByteQueue) {rest : List UInt8}
    (front : q.rest = items.flatMap (Item.layout q.order) ++ rest) :
    replies (items.map fun item => .receive item.shape) q =
      items.map fun item => .ok (some item) := by
  induction items generalizing q with
  | nil => rfl
  | cons item items ih =>
    rw [List.flatMap_cons, List.append_assoc] at front
    have step := Operation.step_receive (held item (List.mem_cons_self ..)) front
    rw [List.map_cons, replies, step]
    refine congrArg (_ :: ·) (ih (fun i hi => held i (List.mem_cons_of_mem _ hi)) _ rfl)

theorem after_put (items : List Item) (q : ByteQueue) :
    after (items.map .put) q =
      { q with rest := q.rest ++ items.flatMap (Item.layout q.order) } := by
  induction items generalizing q with
  | nil => simp [after]
  | cons item items ih =>
    show after (items.map .put) (item.put q) = _
    rw [ih, item.put_eq, List.flatMap_cons, List.append_assoc]

theorem replies_put (items : List Item) (q : ByteQueue) :
    replies (items.map .put) q = items.map fun _ => .ok none := by
  induction items generalizing q with
  | nil => rfl
  | cons item items ih => exact congrArg (_ :: ·) (ih _)

theorem replies_put_skip_receive {items : List Item} (held : ∀ item ∈ items, item.Held)
    (q : ByteQueue) :
    replies (items.map .put ++ .skip q.remaining :: items.map fun item => .receive item.shape) q =
      (items.map fun _ => .ok none) ++ .ok (some (.raw q.rest)) ::
        items.map fun item => .ok (some item) := by
  have held' : ∀ item ∈ Item.raw q.rest :: items, item.Held :=
    List.forall_mem_cons.mpr ⟨trivial, held⟩
  have front : (after (items.map .put) q).rest = (Item.raw q.rest :: items).flatMap
      (Item.layout (after (items.map .put) q).order) ++ [] := by
    rw [after_put, List.append_nil]
    rfl
  rw [replies_append, replies_put]
  exact congrArg _ (replies_put_receive held' _ front)

theorem Operation.refused_iff (op : Operation) (q : ByteQueue) :
    (∃ fault, (op.step q).1 = .error fault) ↔ q.remaining < op.needs := by
  rcases op.step_cases q with
    ⟨item, rfl, step⟩ | ⟨item, rest, rfl, -, front, step⟩ | ⟨short, step⟩
  · simp [step, needs]
  · have enough : item.shape.length ≤ q.remaining := by
      rw [remaining, front, List.length_append, item.length_layout]
      exact Nat.le_add_right ..
    simp [step, needs, enough]
  · simp [step, short]

theorem Operation.unchanged_of_refused {op : Operation} {q : ByteQueue} {fault : FieldFault}
    (refused : (op.step q).1 = .error fault) : fault.code = 38 ∧ (op.step q).2 = q := by
  rcases op.step_cases q with ⟨item, -, step⟩ | ⟨item, rest, -, -, -, step⟩ | ⟨-, step⟩
  · rw [step] at refused
    cases refused
  · rw [step] at refused
    cases refused
  · rw [step] at refused ⊢
    cases refused
    exact ⟨rfl, rfl⟩

/-- Whatever is done to a queue: its read position stays within it; what has been received, as
bytes, is the part of the bytes put, behind those at the start, that has been passed; an operation
is refused exactly if it asks for more than is left, and then nothing changes. Items that are put
come out unchanged by receiving them in their shapes, after what is left in front of them. So do
items whose bytes are all that is put, however puts and receives are mixed: what has been received
in their shapes are the first of them. -/
theorem conserves (order : ByteOrder) (initial : List UInt8) (ops : List Operation) :
    let start := ofList order initial
    let q := after ops start
    let stream := initial ++ written order ops
    q.offset ≤ q.size ∧ q.size = stream.length ∧ q.toList = stream ∧
      (received ops start).flatMap (Item.layout order) = stream.take q.offset ∧
      (∀ op : Operation, ((∃ fault, (op.step q).1 = .error fault) ↔ q.remaining < op.needs) ∧
        ∀ fault, (op.step q).1 = .error fault → fault.code = 38 ∧ (op.step q).2 = q) ∧
      (∀ items : List Item, (∀ item ∈ items, item.Held) →
        replies (items.map .put ++
            .skip q.remaining :: items.map fun item => .receive item.shape) q =
          (items.map fun _ => .ok none) ++ .ok (some (.raw q.rest)) ::
            items.map fun item => .ok (some item)) ∧
      ∀ sent : List Item, (∀ item ∈ sent, item.Held) →
        sent.flatMap (Item.layout order) = stream →
        (received ops start).map Item.shape <+: sent.map Item.shape →
        received ops start <+: sent := by
  intro start q stream
  obtain ⟨-, whole, passed, within⟩ := run_conserves ops start
  have whole : q.toList = stream := whole
  have passed : q.taken.reverse = (received ops start).flatMap (Item.layout order) := passed
  have taken : (received ops start).flatMap (Item.layout order) = stream.take q.offset := by
    rw [← passed, ← whole, toList, offset, ← List.length_reverse, List.take_left]
  have size : q.size = stream.length := by
    rw [← whole, toList, List.length_append, List.length_reverse]
    rfl
  refine ⟨Nat.le_add_right .., size, whole, taken,
    fun op => ⟨op.refused_iff q, fun fault => Operation.unchanged_of_refused⟩,
    fun items held => replies_put_skip_receive held q, fun sent held same shapes => ?_⟩
  refine Item.isPrefix_of_layout order within held shapes ?_
  rw [taken, same]
  exact List.take_prefix ..

namespace Sample

def operations : List Operation :=
  [.put (.integer .two true (-2)), .receive (.raw 1), .receive (.integer .four false),
    .put (.integer .two false 0x8000), .receive (.integer .two true), .put (.raw [1, 2, 3]),
    .receive (.integer .two false), .receive (.raw 3)]

def items : List Item :=
  [.raw [7], .integer .two true (-2), .integer .two false 0x8000, .raw [1, 2, 3]]

end Sample

theorem sample_conserves :
    (∀ item ∈ Sample.items, item.Held) ∧
      received Sample.operations (ofList .little [7]) = Sample.items := by
  have held : ∀ item ∈ Sample.items, item.Held := by decide
  obtain ⟨-, -, -, -, -, -, unchanged⟩ := conserves .little [7] Sample.operations
  exact ⟨held, (unchanged Sample.items held (by decide) (by decide)).eq_of_length (by decide)⟩

end RecordCodec.ByteQueue
