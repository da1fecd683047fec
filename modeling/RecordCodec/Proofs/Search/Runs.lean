import RecordCodec.Proofs.Search.Emission
import RecordCodec.Proofs.Search.Spelling
import RecordCodec.Proofs.Value.Accessors

/-!
The runs of a mixed literal. Each run denotes bytes: hexadecimal digits those they spell, once or
several times, a quoted text those of its characters, and a number the fewest that hold ten times
it. A scanner that stands in front of a run and a space takes the run, or finds it too large.
-/
namespace RecordCodec

/-! ### Shortest byte strings -/

namespace ByteOrder

/-- A byte string, of at least one byte, than which none that denotes the same number is shorter. -/
structure Shortest (order : ByteOrder) (n : Nat) (bytes : List UInt8) : Prop where
  given : bytes ≠ []
  denotes : order.decode bytes = n
  least : ∀ other, other ≠ [] → order.decode other = n → bytes.length ≤ other.length

variable {order : ByteOrder} {n : Nat} {bytes bytes' : List UInt8}

theorem Shortest.unique (one : order.Shortest n bytes) (other : order.Shortest n bytes') :
    bytes = bytes' := by
  have lengths : bytes.length = bytes'.length :=
    Nat.le_antisymm (one.least _ other.given other.denotes)
      (other.least _ one.given one.denotes)
  calc bytes = order.encode bytes.length (order.decode bytes) := (order.encode_decode _).symm
    _ = order.encode bytes'.length (order.decode bytes') := by
      rw [lengths, one.denotes, other.denotes]
    _ = bytes' := order.encode_decode _

theorem lt_capacity_iff {width : Nat} (given : width ≠ 0) :
    n < Bytes.capacity width ↔ n.log2 < 8 * width := by
  have power : Bytes.capacity width = 2 ^ (8 * width) := by
    rw [Bytes.capacity_eq, Nat.pow_mul]
  rw [power]
  by_cases zero : n = 0
  · subst zero
    have some : 0 < 8 * width := by omega
    simpa using some
  · exact (Nat.log2_lt zero).symm

theorem shortest_leastBytes (order : ByteOrder) (n : Nat) :
    order.Shortest n (Operand.leastBytes order n) where
  given := List.ne_nil_of_length_pos (by simp [Operand.leastBytes])
  denotes := by
    have fits : n < Bytes.capacity (n.log2 / 8 + 1) :=
      (lt_capacity_iff (Nat.succ_ne_zero _)).mpr (by omega)
    rw [Operand.leastBytes, decode_encode, Nat.mod_eq_of_lt fits]
  least := by
    intro other given denotes
    have held : n < Bytes.capacity other.length := denotes ▸ order.decode_lt other
    have some : other.length ≠ 0 := fun none => given (List.length_eq_zero_iff.mp none)
    have bound := (lt_capacity_iff some).mp held
    rw [Operand.leastBytes, length_encode]
    omega

end ByteOrder

/-! ### Runs as they are written -/

namespace Written

structure Digits where
  chars : List Char
  given : chars ≠ []
  digits : chars.all Text.isDigit = true

def Digits.value (d : Digits) : Nat :=
  Text.digitsFrom 0 d.chars

/-- A run of bytes, two hexadecimal digits for each, and how often it is meant. -/
structure HexRun where
  pairs : List (Char × Char)
  count : Option Digits
  given : pairs ≠ []
  digits : ∀ p ∈ pairs, Operand.isHexDigit p.1 = true ∧ Operand.isHexDigit p.2 = true
  counted : ∀ k ∈ count, 1 ≤ k.value

inductive Run where
  | hex (h : HexRun)
  | quoted (l : Literal)
  | number (d : Digits)

namespace HexRun

def digitValue (c : Char) : Nat :=
  (Hex.digitValue? c).getD 0

def chars (h : HexRun) : List Char :=
  h.pairs.flatMap fun p => [p.1, p.2]

def countText (h : HexRun) : List Char :=
  match h.count with
  | none => []
  | some k => '(' :: (k.chars ++ [')'])

def times (h : HexRun) : Nat :=
  match h.count with
  | none => 1
  | some k => k.value

def once (h : HexRun) : List UInt8 :=
  h.pairs.map fun p => UInt8.ofNat (digitValue p.1 * 16 + digitValue p.2)

def bytes (h : HexRun) : List UInt8 :=
  (List.replicate h.times h.once).flatten

end HexRun

namespace Run

def text : Run → List Char
  | hex h => '0' :: 'x' :: (h.chars ++ h.countText)
  | quoted l => '\'' :: (l.raw ++ ['\''])
  | number d => d.chars

inductive Denotes (order : ByteOrder) : Run → List UInt8 → Prop
  | hex (h : HexRun) : Denotes order (hex h) h.bytes
  | quoted (l : Literal) : Denotes order (quoted l) (Utf8.encode (Operand.unescape l.raw))
  | number (d : Digits) {bytes : List UInt8} (least : order.Shortest (10 * d.value) bytes) :
    Denotes order (number d) bytes

def TooLarge (before : Nat) : Run → List UInt8 → Prop
  | hex _, bytes => 65535 < before + bytes.length
  | quoted _, _ => False
  | number d, _ => 2 ^ 64 ≤ 10 * d.value

instance (before : Nat) (r : Run) (bytes : List UInt8) : Decidable (r.TooLarge before bytes) :=
  match r with
  | hex _ => inferInstanceAs (Decidable (65535 < before + bytes.length))
  | quoted _ => inferInstanceAs (Decidable False)
  | number d => inferInstanceAs (Decidable (2 ^ 64 ≤ 10 * d.value))

theorem Denotes.unique {order : ByteOrder} {r : Run} {bytes bytes' : List UInt8}
    (one : r.Denotes order bytes) (other : r.Denotes order bytes') : bytes' = bytes := by
  cases one with
  | hex | quoted =>
    cases other
    rfl
  | number d least =>
    cases other with
    | number _ least' => exact least'.unique least

theorem exists_denotes (order : ByteOrder) (r : Run) : ∃ bytes, r.Denotes order bytes := by
  cases r with
  | hex h => exact ⟨_, .hex h⟩
  | quoted l => exact ⟨_, .quoted l⟩
  | number d => exact ⟨_, .number d (order.shortest_leastBytes _)⟩

end Run

def runsText (runs : List Run) : List Char :=
  Text.join [' '] (runs.map Run.text)

/-- Ten times some number is more than eight bytes hold, or the bytes up to the end of some
hexadecimal run are too many; `before` bytes stand in front of the runs. -/
def TooLarge (before : Nat) (runs : List Run) (segments : List (List UInt8)) : Prop :=
  (∃ d, .number d ∈ runs ∧ 2 ^ 64 ≤ 10 * d.value) ∨
    ∃ (i : Nat) (h : HexRun), runs[i]? = some (.hex h) ∧
      65535 < before + (segments.take (i + 1)).flatten.length

theorem exists_segments (order : ByteOrder) (runs : List Run) :
    ∃ segments, List.Forall₂ (Run.Denotes order) runs segments := by
  induction runs with
  | nil => exact ⟨[], .nil⟩
  | cons r runs ih =>
    obtain ⟨bytes, here⟩ := r.exists_denotes order
    obtain ⟨segments, later⟩ := ih
    exact ⟨bytes :: segments, .cons here later⟩

theorem denoted_iff {order : ByteOrder} {runs : List Run} {segments : List (List UInt8)}
    (denoted : List.Forall₂ (Run.Denotes order) runs segments) (others : List (List UInt8)) :
    List.Forall₂ (Run.Denotes order) runs others ↔ others = segments := by
  constructor
  · intro other
    induction denoted generalizing others with
    | nil =>
      cases other
      rfl
    | cons here later ih =>
      cases other with
      | cons here' later' => rw [here.unique here', ih _ later']
  · rintro rfl
    exact denoted

theorem not_tooLarge_nil {before : Nat} {segments : List (List UInt8)} :
    ¬TooLarge before [] segments := by
  rintro (⟨d, listed, -⟩ | ⟨i, h, listed, -⟩)
  · cases listed
  · cases listed

theorem tooLarge_cons {before : Nat} {r : Run} {runs : List Run} {bytes : List UInt8}
    {segments : List (List UInt8)} : TooLarge before (r :: runs) (bytes :: segments) ↔
      r.TooLarge before bytes ∨ TooLarge (before + bytes.length) runs segments := by
  constructor
  · rintro (⟨d, listed, large⟩ | ⟨i, h, listed, large⟩)
    · rcases List.mem_cons.mp listed with rfl | later
      · exact .inl large
      · exact .inr (.inl ⟨d, later, large⟩)
    · cases i with
      | zero =>
        cases listed
        exact .inl (by simpa [Run.TooLarge] using large)
      | succ i => exact .inr (.inr ⟨i, h, listed, by simpa [Nat.add_assoc] using large⟩)
  · rintro (here | ⟨d, listed, large⟩ | ⟨i, h, listed, large⟩)
    · cases r with
      | hex h => exact .inr ⟨0, h, rfl, by simpa [Run.TooLarge] using here⟩
      | quoted l => cases here
      | number d => exact .inl ⟨d, List.mem_cons_self .., here⟩
    · exact .inl ⟨d, List.mem_cons_of_mem _ listed, large⟩
    · exact .inr ⟨i + 1, h, listed, by simpa [Nat.add_assoc] using large⟩

end Written

/-! ### Outcomes within a bound -/

/-- An outcome that is the expected one within a bound, and a fault of some kind beyond it. -/
structure Outcome.Bounded {ε α : Type} (beyond : Prop) (isFault : ε → Prop)
    (outcome expected : Except ε α) : Prop where
  kept : ¬beyond → outcome = expected
  refused : beyond → ∃ fault, outcome = .error fault ∧ isFault fault

namespace Outcome.Bounded

variable {ε δ α β : Type} {beyond beyond' : Prop} {isFault : ε → Prop}
  {outcome expected next : Except ε α}

theorem trans (one : Bounded beyond isFault outcome expected)
    (other : Bounded beyond' isFault expected next) :
    Bounded (beyond ∨ beyond') isFault outcome next where
  kept within := by
    rw [not_or] at within
    exact (one.kept within.1).trans (other.kept within.2)
  refused := by
    rintro large
    by_cases here : beyond
    · exact one.refused here
    · rw [one.kept here]
      exact other.refused (large.resolve_left here)

theorem bind (h : Bounded beyond isFault outcome expected) (f : α → Except ε β) :
    Bounded beyond isFault (outcome.bind f) (expected.bind f) where
  kept within := by rw [h.kept within]
  refused large := by
    obtain ⟨fault, failed, kind⟩ := h.refused large
    exact ⟨fault, by rw [failed]; rfl, kind⟩

theorem map (h : Bounded beyond isFault outcome expected) (f : α → β) :
    Bounded beyond isFault (outcome.map f) (expected.map f) where
  kept within := by rw [h.kept within]
  refused large := by
    obtain ⟨fault, failed, kind⟩ := h.refused large
    exact ⟨fault, by rw [failed]; rfl, kind⟩

theorem mapError {isFault' : δ → Prop} (h : Bounded beyond isFault outcome expected) (f : ε → δ)
    (kinds : ∀ fault, isFault fault → isFault' (f fault)) :
    Bounded beyond isFault' (outcome.mapError f) (expected.mapError f) where
  kept within := by rw [h.kept within]
  refused large := by
    obtain ⟨fault, failed, kind⟩ := h.refused large
    exact ⟨f fault, by rw [failed]; rfl, kinds fault kind⟩

end Outcome.Bounded

/-! ### The scanner in front of a run -/

namespace Operand

open Mark
open Written (HexRun Digits Run)
open Outcome (Bounded)

def Apart (behind : List Char) : Prop :=
  ∀ c ∈ behind.head?, c = ' '

theorem takeWhile_front {p : Char → Bool} {front behind : List Char} (all : ∀ c ∈ front, p c = true)
    (stops : ∀ c ∈ behind.head?, p c = false) :
    (front ++ behind).takeWhile p = front ∧ (front ++ behind).dropWhile p = behind := by
  rw [List.takeWhile_append_of_pos all, List.dropWhile_append_of_pos all]
  cases behind with
  | nil => simp
  | cons c behind => simp [stops c rfl]

theorem decode?_pairs {pairs : List (Char × Char)}
    (digits : ∀ p ∈ pairs, isHexDigit p.1 = true ∧ isHexDigit p.2 = true) :
    Hex.decode? (pairs.flatMap fun p => [p.1, p.2]) = some (pairs.map fun p =>
      UInt8.ofNat (HexRun.digitValue p.1 * 16 + HexRun.digitValue p.2)) := by
  induction pairs with
  | nil => rfl
  | cons p pairs ih =>
    obtain ⟨⟨high, low⟩, later⟩ := List.forall_mem_cons.mp digits
    obtain ⟨a, first⟩ := Option.isSome_iff_exists.mp high
    obtain ⟨b, second⟩ := Option.isSome_iff_exists.mp low
    rw [List.flatMap_cons, List.cons_append, List.cons_append, List.nil_append, Hex.decode?, first,
      second, ih later]
    simp [HexRun.digitValue, first, second]

theorem readUnsigned?_digits (d : Digits) :
    Text.readUnsigned? (Text.trim d.chars) = some d.value := by
  have plain : Text.NoBlank d.chars := fun c listed =>
    Text.isBlank_of_isDigit (List.all_eq_true.mp d.digits c listed)
  rw [Text.trim_of_noBlank plain]
  unfold Text.readUnsigned?
  split
  · rename_i rest text
    have plus := List.all_eq_true.mp d.digits '+' (text ▸ List.mem_cons_self ..)
    cases plus
  · exact Text.readNat?_eq_some.mpr ⟨d.given, d.digits, rfl⟩

theorem repeatCount_text (h : HexRun) {behind : List Char} (apart : Apart behind) :
    Bounded (UInt64.size ≤ h.times) (fun _ => True) (repeatCount (h.countText ++ behind))
      (.ok (h.times, behind)) := by
  cases count : h.count with
  | none =>
    have text : h.countText = [] := by rw [HexRun.countText, count]
    have once : h.times = 1 := by rw [HexRun.times, count]
    have other : ∀ rest, behind ≠ '(' :: rest := by
      rintro rest rfl
      cases apart '(' rfl
    rw [text, once, List.nil_append, repeatCount_none other]
    exact ⟨fun _ => rfl, fun large => absurd large (by decide)⟩
  | some k =>
    have text : h.countText = '(' :: (k.chars ++ [')']) := by rw [HexRun.countText, count]
    have times : h.times = k.value := by rw [HexRun.times, count]
    have noClose : ∀ c ∈ k.chars, c ≠ ')' := by
      rintro c listed rfl
      cases List.all_eq_true.mp k.digits ')' listed
    have found : upTo? ')' (k.chars ++ ')' :: behind) = some (k.chars, behind) :=
      upTo?_append noClose behind
    obtain ⟨m, value⟩ : ∃ m, k.value = m + 1 := by
      have counted := h.counted k count
      exact ⟨k.value - 1, by omega⟩
    have read : Text.readNatUpTo? (UInt64.size - 1) (Text.trim k.chars) =
        (some (m + 1)).filter (· ≤ UInt64.size - 1) := by
      rw [Text.readNatUpTo?, readUnsigned?_digits, value]
    have size : UInt64.size = 18446744073709551616 := rfl
    rw [text, times, List.cons_append, List.append_assoc, List.singleton_append, value]
    constructor
    · intro small
      have fits : m + 1 ≤ UInt64.size - 1 := by omega
      exact repeatCount_count found (by rw [read, Option.filter_some, decide_eq_true fits]; rfl)
    · intro large
      have excess : ¬m + 1 ≤ UInt64.size - 1 := by omega
      have unread : Text.readNatUpTo? (UInt64.size - 1) (Text.trim k.chars) = none := by
        rw [read, Option.filter_some, decide_eq_false excess]
        rfl
      refine ⟨.badCount, ?_, trivial⟩
      simp only [repeatCount, found, unread]

theorem number_ends (d : Digits) {behind : List Char} (apart : Apart behind) :
    (d.chars ++ behind).takeWhile Text.isDigit = d.chars ∧
      (d.chars ++ behind).dropWhile Text.isDigit = behind := by
  refine takeWhile_front (List.all_eq_true.mp d.digits) fun c first => ?_
  rw [apart c first]
  rfl

theorem run_number {order : ByteOrder} {constants : List (List Char)} (d : Digits) (before : Nat)
    {behind rest : List Char} {c : Char} (text : d.chars ++ behind = c :: rest)
    (apart : Apart behind) :
    run order constants before c rest = numberRun order (d.chars ++ behind) := by
  obtain ⟨first, more, chars⟩ := List.exists_cons_of_ne_nil d.given
  have digits := List.all_eq_true.mp d.digits
  rw [chars, List.cons_append] at text
  obtain ⟨rfl, rfl⟩ := List.cons.inj text
  have digit : Text.isDigit first = true := digits first (chars ▸ List.mem_cons_self ..)
  have next : ∀ x, (more ++ behind).head? = some x → Text.isDigit x = true ∨ x = ' ' := by
    intro x head
    cases more with
    | nil => exact .inr (apart x head)
    | cons y more =>
      cases head
      exact .inl (digits _ (by rw [chars]; simp))
  have noHex : ¬(first = '0' ∧ ((more ++ behind).head? = some 'x' ∨
      (more ++ behind).head? = some 'X')) := by
    rintro ⟨-, lower | upper⟩
    · rcases next _ lower with digit | space
      · cases digit
      · cases space
    · rcases next _ upper with digit | space
      · cases digit
      · cases space
  have noMarker : ¬(first = '#' ∧ (more ++ behind).head? = some '{') := by
    rintro ⟨rfl, -⟩
    cases digit
  rw [run, if_neg noHex, if_neg noMarker, if_pos digit, chars, List.cons_append]

theorem numberRun_text {order : ByteOrder} (d : Digits) {behind : List Char}
    (apart : Apart behind) {bytes : List UInt8} (least : order.Shortest (10 * d.value) bytes) :
    Bounded (2 ^ 64 ≤ 10 * d.value) (fun _ => True) (numberRun order (d.chars ++ behind))
      (.ok (bytes, behind)) := by
  obtain ⟨front, back⟩ := number_ends d apart
  have size : UInt64.size = 2 ^ 64 := rfl
  have value : Text.digitsFrom 0 d.chars * 10 = 10 * d.value := Nat.mul_comm ..
  have same := (order.shortest_leastBytes _).unique least
  rw [numberRun, front, back, size, value, same]
  exact ⟨fun small => if_neg small, fun large => ⟨.numberTooLarge, if_pos large, trivial⟩⟩

theorem length_bytes (h : HexRun) : h.bytes.length = h.once.length * h.times := by
  rw [HexRun.bytes, List.length_flatten, List.map_replicate, List.sum_replicate_nat, Nat.mul_comm]

theorem hexRun_text (h : HexRun) (before : Nat) {behind : List Char} (apart : Apart behind) :
    Bounded (65535 < before + h.bytes.length) (fun _ => True)
      (hexRun before (h.chars ++ (h.countText ++ behind))) (.ok (h.bytes, behind)) := by
  have hex : ∀ c ∈ h.chars, isHexDigit c = true := by
    intro c listed
    obtain ⟨p, inside, here⟩ := List.mem_flatMap.mp listed
    obtain ⟨high, low⟩ := h.digits p inside
    simp only [List.mem_cons, List.not_mem_nil, or_false] at here
    rcases here with rfl | rfl
    · exact high
    · exact low
  have stops : ∀ c ∈ (h.countText ++ behind).head?, isHexDigit c = false := by
    unfold HexRun.countText
    split
    · intro c first
      rw [apart c first]
      rfl
    · rintro c ⟨⟩
      rfl
  obtain ⟨front, back⟩ := takeWhile_front hex stops
  have decoded : Hex.decode? h.chars = some h.once := decode?_pairs h.digits
  obtain ⟨b, more, once⟩ : ∃ b more, h.once = b :: more :=
    List.exists_cons_of_ne_nil (by simpa [HexRun.once] using h.given)
  have length : h.bytes.length = (more.length + 1) * h.times := by
    rw [length_bytes, once, List.length_cons]
  have counted := repeatCount_text h apart
  rw [hexRun, front, back, decoded, once]
  dsimp only
  by_cases small : h.times < UInt64.size
  · rw [counted.kept (Nat.not_le.mpr small)]
    dsimp only
    rw [← length, Nat.add_comm, ← once]
    exact ⟨fun short => if_neg short, fun long => ⟨.tooLong, if_pos long, trivial⟩⟩
  · obtain ⟨fault, failed, -⟩ := counted.refused (Nat.not_lt.mp small)
    have long : h.times ≤ h.bytes.length := by
      rw [length]
      exact Nat.le_mul_of_pos_left _ (Nat.succ_pos _)
    have size : UInt64.size = 18446744073709551616 := rfl
    rw [failed]
    exact ⟨fun short => by omega, fun _ => ⟨fault, rfl, trivial⟩⟩


end Operand

/-! ### Runs as marks -/

namespace Written

open Mark

def Run.marks (n : Nat) : Run → List Mark
  | hex h => (hex h).text.map .char
  | quoted l => [.literal n l.raw]
  | number d => d.chars.map .char

def runsMarks (items : List (Nat × Run)) : List Mark :=
  List.intercalate [.char ' '] (items.map fun x => x.2.marks x.1)

theorem runsMarks_cons (x : Nat × Run) (items : List (Nat × Run)) :
    runsMarks (x :: items) =
      x.2.marks x.1 ++ items.flatMap fun x => .char ' ' :: x.2.marks x.1 := by
  rw [runsMarks, List.map_cons, SearchNode.intercalate_cons, List.flatMap_map]
  rfl

end Written

namespace Operand

open Mark
open Written (HexRun Digits Run runsMarks)
open Outcome (Bounded)

variable {order : ByteOrder} {constants : List (List Char)}

theorem mixedFrom_blank (before : List UInt8) (s : List Char) :
    mixedFrom order constants before (' ' :: s) = mixedFrom order constants before s := by
  have blank : run order constants before.length ' ' s = .ok ([], s) := rfl
  rw [mixedFrom_cons, blank]
  change mixedFrom order constants (before ++ []) s = _
  rw [List.append_nil]

theorem mixedFrom_run {r : Run} {n : Nat} {later : List Mark}
    (held : Held constants (r.marks n ++ later)) {bytes : List UInt8}
    (denotes : r.Denotes order bytes) (apart : Apart (place later)) (before : List UInt8) :
    Bounded (r.TooLarge before.length bytes) (fun _ => True)
      (mixedFrom order constants before (place (r.marks n ++ later)))
      (mixedFrom order constants (before ++ bytes) (place later)) := by
  cases denotes with
  | hex h =>
    have text : place ((Run.hex h).marks n ++ later) =
        '0' :: 'x' :: (h.chars ++ (h.countText ++ place later)) := by
      rw [place_append, Run.marks, place_char, Run.text]
      simp
    have ran : run order constants before.length '0'
        ('x' :: (h.chars ++ (h.countText ++ place later))) =
          hexRun before.length (h.chars ++ (h.countText ++ place later)) := rfl
    rw [text, mixedFrom_cons, ran]
    exact (hexRun_text h before.length apart).bind _
  | quoted l =>
    have text : place ((Run.quoted l).marks n ++ later) =
        '#' :: '{' :: (Text.ofNat n ++ '}' :: place later) := place_literal n l.raw later
    have ran : run order constants before.length '#'
        ('{' :: (Text.ofNat n ++ '}' :: place later)) =
          .ok (Utf8.encode (unescape l.raw), place later) := by
      rw [run, if_neg (by simp), if_pos ⟨rfl, rfl⟩]
      exact constantRun_literal held
    rw [text, mixedFrom_cons, ran]
    exact ⟨fun _ => rfl, fun large => large.elim⟩
  | number d least =>
    have text : place ((Run.number d).marks n ++ later) = d.chars ++ place later := by
      rw [place_append, Run.marks, place_char]
    obtain ⟨c, rest, chars⟩ : ∃ c rest, d.chars ++ place later = c :: rest :=
      List.exists_cons_of_ne_nil (by simp [d.given])
    rw [text, chars, mixedFrom_cons, run_number d before.length chars apart]
    exact (numberRun_text d apart least).bind _

theorem apart_spaced (items : List (Nat × Run)) :
    Apart (place (items.flatMap fun x => .char ' ' :: x.2.marks x.1)) := by
  cases items with
  | nil => exact fun c none => by cases none
  | cons x items =>
    rintro c ⟨⟩
    rfl

theorem mixedFrom_runs {items : List (Nat × Run)} {segments : List (List UInt8)}
    (denoted : List.Forall₂ (Run.Denotes order) (items.map Prod.snd) segments)
    (held : Held constants (items.flatMap fun x => .char ' ' :: x.2.marks x.1))
    (before : List UInt8) :
    Bounded (Written.TooLarge before.length (items.map Prod.snd) segments) (fun _ => True)
      (mixedFrom order constants before
        (place (items.flatMap fun x => .char ' ' :: x.2.marks x.1)))
      (.ok (before ++ segments.flatten)) := by
  induction items generalizing segments before with
  | nil =>
    cases denoted
    refine ⟨fun _ => ?_, fun large => absurd large Written.not_tooLarge_nil⟩
    rw [List.flatten_nil, List.append_nil]
    exact mixedFrom.eq_def ..
  | cons x items ih =>
    rw [List.map_cons] at denoted ⊢
    rw [List.flatMap_cons, List.cons_append] at held ⊢
    cases denoted with
    | @cons _ bytes _ segments here later =>
      have inside := held.part (List.suffix_cons ..).isInfix
      have behind := inside.part (List.suffix_append ..).isInfix
      have first := mixedFrom_run inside here (apart_spaced items) before
      have rest := ih later behind (before ++ bytes)
      rw [List.length_append, List.append_assoc, ← List.flatten_cons] at rest
      rw [Written.tooLarge_cons, place_cons, placed, List.singleton_append, mixedFrom_blank]
      exact first.trans rest

/-- A mixed literal has the bytes of its runs one after another, unless they are too large. -/
theorem mixedFrom_runsMarks {items : List (Nat × Run)} {segments : List (List UInt8)}
    (denoted : List.Forall₂ (Run.Denotes order) (items.map Prod.snd) segments)
    (held : Held constants (runsMarks items)) :
    Bounded (Written.TooLarge 0 (items.map Prod.snd) segments) (fun _ => True)
      (mixedFrom order constants [] (place (runsMarks items))) (.ok segments.flatten) := by
  cases items with
  | nil => exact mixedFrom_runs denoted held []
  | cons x items =>
    have spaced : ((x :: items).flatMap fun x => .char ' ' :: x.2.marks x.1) =
        .char ' ' :: runsMarks (x :: items) := by
      rw [Written.runsMarks_cons]
      rfl
    have behind : Held constants (.char ' ' :: runsMarks (x :: items)) := fun n raw listed =>
      held n raw (by simpa using listed)
    have scanned := mixedFrom_runs denoted (spaced ▸ behind) []
    rwa [spaced, place_cons, placed, List.singleton_append, mixedFrom_blank] at scanned

end Operand

end RecordCodec
