import RecordCodec.Proofs.Value.Walk

/-!
What holds of every field in a value. A property that a field has from the start, and that neither
an assignment nor a read takes from it, holds of all fields in a value whatever is done to it.
-/
namespace RecordCodec

/-- A property that a field has from the start and keeps. -/
structure Leaf.Lasting [Libraries] (P : Leaf → Prop) : Prop where
  fresh : ∀ p : Place, P (fresh p)
  assign : ∀ {l l' : Leaf} {s : Scalar}, P l → l.assign s = .ok l' → P l'
  parse : ∀ {l : Leaf} (r : Request) (q : ByteQueue), P l → P (l.parse r q).1
  compose : ∀ {l : Leaf} {before : List UInt8} (bytes : List UInt8), P l →
    l.content = .superDescriptor before → P { l with content := .superDescriptor bytes }

inductive Value.Everywhere (P : Leaf → Prop) : Value → Prop where
  | leaf {l : Leaf} (here : P l) : Everywhere P (.leaf l)
  | node {p : Place} {elements : List (List Value)}
      (inside : ∀ element ∈ elements, ∀ v ∈ element, Everywhere P v) :
      Everywhere P (.node p elements)

variable {P : Leaf → Prop}

def Value.fieldLaw (P : Leaf → Prop) : Law where
  leaf := P
  node _ _ := True

theorem Value.everywhere_iff_obeys {v : Value} : v.Everywhere P ↔ v.Obeys (fieldLaw P) := by
  constructor
  · intro all
    induction all with
    | leaf here => exact .leaf here
    | node _ ih => exact .node trivial ih
  · intro obeys
    induction obeys with
    | leaf here => exact .leaf here
    | node _ _ ih => exact .node ih

theorem Value.Everywhere.of_walk {v : Value} (all : v.Everywhere P) {l : Leaf}
    (deep : .leaf l ∈ v.walk) : P l := by
  cases (everywhere_iff_obeys.mp all).of_mem_walk _ deep with
  | leaf here => exact here

theorem Leaf.Lasting.fieldLaw [Libraries] (lasting : Leaf.Lasting P) :
    (Value.fieldLaw P).Lasting where
  fresh p _ := lasting.fresh p
  assign here assigned := lasting.assign here assigned
  parse r q here := lasting.parse r q here
  compose bytes here content := lasting.compose bytes here content
  group _ _ := trivial
  read _ _ _ := trivial
  grow _ _ _ _ _ := trivial

theorem Value.grows_fieldLaw (t : FieldType) : (fieldLaw P).Grows t :=
  fun _ _ _ _ => trivial

end RecordCodec
