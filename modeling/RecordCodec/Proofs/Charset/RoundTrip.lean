import Mathlib.Data.List.Basic
import Mathlib.Tactic.SplitIfs
import RecordCodec.Charset.Basic
import RecordCodec.Proofs.Outcome

/-!
Texts in character sets. UTF-8, UTF-16 and the pages of IBM read what they write, character by
character, so a text in one of them may be followed by bytes that stand for a character each.
-/
namespace RecordCodec

namespace Utf8

theorem toNat_byte {k : Nat} (byte : k < 256) : (UInt8.ofNat k).toNat = k :=
  Nat.mod_eq_of_lt byte

theorem byte_lt {k : Nat} (byte : k < 256) (b : UInt8) : UInt8.ofNat k < b ↔ k < b.toNat := by
  rw [UInt8.lt_iff_toNat_lt, toNat_byte byte]

theorem le_byte {k : Nat} (byte : k < 256) (b : UInt8) : b ≤ UInt8.ofNat k ↔ b.toNat ≤ k := by
  rw [UInt8.le_iff_toNat_le, toNat_byte byte]

theorem byte_eq {k : Nat} (byte : k < 256) (b : UInt8) : UInt8.ofNat k = b ↔ k = b.toNat := by
  rw [← UInt8.toNat_inj, toNat_byte byte]

theorem toNat_scalar (c : Char) : c.toNat < 0xD800 ∨ 0xE000 ≤ c.toNat ∧ c.toNat < 0x110000 := by
  have valid := c.valid
  simp only [UInt32.isValidChar, Nat.isValidChar] at valid
  show c.val.toNat < _ ∨ _ ≤ c.val.toNat ∧ c.val.toNat < _
  omega

def tailByte (k : Nat) : UInt8 :=
  UInt8.ofNat (0x80 + k % 64)

theorem isContinuation_tailByte (k : Nat) : isContinuation (tailByte k) = true := by
  have byte : 0x80 + k % 64 < 256 := by omega
  simp only [isContinuation, tailByte, Bool.and_eq_true, decide_eq_true_eq, le_byte byte,
    byte_lt byte, UInt8.reduceToNat]
  omega

theorem low6_tailByte (k : Nat) : low6 (tailByte k) = k % 64 := by
  have byte : 0x80 + k % 64 < 256 := by omega
  unfold low6 tailByte
  rw [toNat_byte byte]
  exact Nat.add_sub_cancel_left ..

theorem next_one {n : Nat} (small : n < 0x80) (rest : List UInt8) :
    next (UInt8.ofNat n) rest = .char (Char.ofNat n) 1 := by
  have byte : n < 256 := by omega
  have ascii : UInt8.ofNat n < 0x80 := (byte_lt byte _).mpr small
  rw [next.eq_def, if_pos ascii, toNat_byte byte]

theorem next_two {n : Nat} (low : 0x80 ≤ n) (high : n < 0x800) (rest : List UInt8) :
    next (UInt8.ofNat (0xC0 + n / 64)) (tailByte n :: rest) = .char (Char.ofNat n) 2 := by
  have byte : 0xC0 + n / 64 < 256 := by omega
  have number : n / 64 * 64 + n % 64 = n := by omega
  simp only [next, byte_lt byte, le_byte byte, toNat_byte byte, isContinuation_tailByte,
    low6_tailByte, UInt8.reduceToNat, Nat.add_sub_cancel_left, number, Bool.and_eq_true,
    decide_eq_true_eq, if_true]
  rw [if_neg (by omega), if_pos (by omega)]

theorem next_three {n : Nat} (low : 0x800 ≤ n) (high : n < 0x10000)
    (scalar : n < 0xD800 ∨ 0xE000 ≤ n) (rest : List UInt8) :
    next (UInt8.ofNat (0xE0 + n / 4096)) (tailByte (n / 64) :: tailByte n :: rest) =
      .char (Char.ofNat n) 3 := by
  have byte : 0xE0 + n / 4096 < 256 := by omega
  have second : 0x80 + n / 64 % 64 < 256 := by omega
  have number : n / 4096 * 4096 + n / 64 % 64 * 64 + n % 64 = n := by omega
  -- the second byte excludes short numbers and surrogates
  have inRange : secondInRange (UInt8.ofNat (0xE0 + n / 4096)) (tailByte (n / 64)) = true := by
    have continues := isContinuation_tailByte (n / 64)
    simp only [secondInRange, beq_iff_eq, byte_eq byte, UInt8.reduceToNat, continues]
    simp only [tailByte, byte_lt second, le_byte second, UInt8.reduceToNat]
    split_ifs <;> first | rfl | (simp only [Bool.and_eq_true, decide_eq_true_eq]; omega)
  simp only [next, byte_lt byte, le_byte byte, toNat_byte byte, isContinuation_tailByte, inRange,
    low6_tailByte, UInt8.reduceToNat, Nat.add_sub_cancel_left, number, Bool.and_eq_true,
    decide_eq_true_eq, if_true]
  rw [if_neg (by omega), if_neg (by omega), if_pos (by omega)]

theorem next_four {n : Nat} (low : 0x10000 ≤ n) (high : n < 0x110000) (rest : List UInt8) :
    next (UInt8.ofNat (0xF0 + n / 262144))
        (tailByte (n / 4096) :: tailByte (n / 64) :: tailByte n :: rest) =
      .char (Char.ofNat n) 4 := by
  have byte : 0xF0 + n / 262144 < 256 := by omega
  have second : 0x80 + n / 4096 % 64 < 256 := by omega
  have number : n / 262144 * 262144 + n / 4096 % 64 * 4096 + n / 64 % 64 * 64 + n % 64 = n := by
    omega
  -- the second byte excludes short numbers and those past the last character
  have inRange : secondInRange (UInt8.ofNat (0xF0 + n / 262144)) (tailByte (n / 4096)) = true := by
    have continues := isContinuation_tailByte (n / 4096)
    simp only [secondInRange, beq_iff_eq, byte_eq byte, UInt8.reduceToNat, continues]
    simp only [tailByte, byte_lt second, le_byte second, UInt8.reduceToNat]
    split_ifs <;> first | rfl | (simp only [Bool.and_eq_true, decide_eq_true_eq]; omega)
  simp only [next, byte_lt byte, le_byte byte, toNat_byte byte, isContinuation_tailByte, inRange,
    low6_tailByte, UInt8.reduceToNat, Nat.add_sub_cancel_left, number, Bool.and_eq_true,
    decide_eq_true_eq, if_true]
  rw [if_neg (by omega), if_neg (by omega), if_neg (by omega), if_pos (by omega)]

theorem next_encodeChar (c : Char) (rest : List UInt8) : ∃ b tail, encodeChar c = b :: tail ∧
    next b (tail ++ rest) = .char c (tail.length + 1) := by
  have scalar := toNat_scalar c
  have same : Char.ofNat c.toNat = c := Char.ofNat_toNat c
  rcases Nat.lt_or_ge c.toNat 0x80 with one | more
  · refine ⟨_, [], by simp only [encodeChar, if_pos one]; rfl, ?_⟩
    exact (next_one one rest).trans (by rw [same]; rfl)
  rcases Nat.lt_or_ge c.toNat 0x800 with two | more'
  · refine ⟨_, [tailByte c.toNat],
      by simp only [encodeChar, if_neg (Nat.not_lt.mpr more), if_pos two]; rfl, ?_⟩
    exact (next_two more two rest).trans (by rw [same]; rfl)
  rcases Nat.lt_or_ge c.toNat 0x10000 with three | four
  · refine ⟨_, [tailByte (c.toNat / 64), tailByte c.toNat],
      by simp only [encodeChar, if_neg (Nat.not_lt.mpr more), if_neg (Nat.not_lt.mpr more'),
        if_pos three]; rfl, ?_⟩
    exact (next_three more' three (by omega) rest).trans (by rw [same]; rfl)
  · refine ⟨_, [tailByte (c.toNat / 4096), tailByte (c.toNat / 64), tailByte c.toNat],
      by simp only [encodeChar, if_neg (Nat.not_lt.mpr more), if_neg (Nat.not_lt.mpr more'),
        if_neg (Nat.not_lt.mpr four)]; rfl, ?_⟩
    exact (next_four four (by omega) rest).trans (by rw [same]; rfl)

theorem decodeFrom_skip (index : Nat) (tail rest : List UInt8) :
    decodeFrom index tail.length (tail ++ rest) = decodeFrom (index + tail.length) 0 rest := by
  induction tail generalizing index with
  | nil => rfl
  | cons b tail ih =>
    rw [List.length_cons, List.cons_append, decodeFrom, ih]
    congr 1
    omega

theorem decodeFrom_encode (index : Nat) (s : List Char) :
    decodeFrom index 0 (encode s) = .ok s := by
  induction s generalizing index with
  | nil => rfl
  | cons c s ih =>
    obtain ⟨b, tail, written, read⟩ := next_encodeChar c (encode s)
    rw [encode, List.flatMap_cons, written, List.cons_append]
    change decodeFrom index 0 (b :: (tail ++ encode s)) = _
    rw [decodeFrom, read]
    dsimp only
    rw [Nat.add_sub_cancel, decodeFrom_skip, ih]

theorem decode_encode (s : List Char) : decode (encode s) = .ok s :=
  decodeFrom_encode 0 s

end Utf8

namespace Utf16

theorem decode_unit (order : ByteOrder) {u : Nat} (word : u < 0x10000) :
    order.decode (order.encode 2 u) = u := by
  rw [ByteOrder.decode_encode]
  exact Nat.mod_eq_of_lt word

theorem units_lt {c : Char} {u : Nat} (of : u ∈ units c) : u < 0x10000 := by
  have scalar := Utf8.toNat_scalar c
  unfold units at of
  dsimp only at of
  split at of
  · rwa [List.mem_singleton.mp of]
  · rcases List.mem_pair.mp of with high | low <;> omega

theorem unitsOfBytes_encode (order : ByteOrder) {us : List Nat} (words : ∀ u ∈ us, u < 0x10000) :
    unitsOfBytes order (us.flatMap (order.encode 2)) = us := by
  induction us with
  | nil => rfl
  | cons u us ih =>
    obtain ⟨word, words⟩ := List.forall_mem_cons.mp words
    obtain ⟨a, b, bytes⟩ := List.length_eq_two.mp (order.length_encode 2 u)
    have unit := decode_unit order word
    rw [bytes] at unit
    rw [List.flatMap_cons, bytes, List.cons_append, List.cons_append, List.nil_append,
      unitsOfBytes, unit, ih words]

theorem ofUnits?_units (c : Char) (rest : List Nat) :
    ofUnits? (units c ++ rest) = (ofUnits? rest).map (c :: ·) := by
  have scalar := Utf8.toNat_scalar c
  have same : Char.ofNat c.toNat = c := Char.ofNat_toNat c
  unfold units
  dsimp only
  split
  · rename_i small
    rw [List.singleton_append, ofUnits?.eq_def]
    dsimp only
    rw [if_pos (by omega), same]
  · have number : 0x10000 + (0xD800 + (c.toNat - 0x10000) / 1024 - 0xD800) * 1024 +
        (0xDC00 + (c.toNat - 0x10000) % 1024 - 0xDC00) = c.toNat := by omega
    rw [List.cons_append, List.singleton_append, ofUnits?.eq_def]
    dsimp only
    rw [if_neg (by omega), if_pos (by omega), number, same]

theorem ofUnits?_flatMap (s : List Char) : ofUnits? (s.flatMap units) = some s := by
  induction s with
  | nil => rfl
  | cons c s ih => rw [List.flatMap_cons, ofUnits?_units, ih, Option.map_some]

theorem encode_eq (order : ByteOrder) (s : List Char) :
    encode order s = (s.flatMap units).flatMap (order.encode 2) :=
  List.flatMap_assoc.symm

theorem decode_encode (order : ByteOrder) (s : List Char) :
    decode order (encode order s) = .ok s := by
  have words : ∀ u ∈ s.flatMap units, u < 0x10000 := by
    intro u listed
    obtain ⟨c, -, of⟩ := List.mem_flatMap.mp listed
    exact units_lt of
  have even (us : List Nat) : (us.flatMap (order.encode 2)).length % 2 = 0 := by
    induction us with
    | nil => rfl
    | cons u us ih =>
      rw [List.flatMap_cons, List.length_append, order.length_encode]
      omega
  rw [encode_eq, decode, if_pos (even _), unitsOfBytes_encode order words, ofUnits?_flatMap]

end Utf16

namespace CodePage

variable {page : CodePage}

theorem length_table (page : CodePage) : page.table.length = 256 := by
  cases page <;> decide +kernel

theorem decodeByte_encodeChar? {c : Char} {b : UInt8} (h : page.encodeChar? c = some b) :
    page.decodeByte b = c := by
  rw [encodeChar?] at h
  split at h
  · rename_i direct
    simp only [Bool.and_eq_true, decide_eq_true_eq, beq_iff_eq] at direct
    obtain ⟨⟨-, ascii⟩, here⟩ := direct
    cases h
    have byte : c.toNat < 256 := Nat.lt_trans ascii (by decide)
    rw [decodeByte, Utf8.toNat_byte byte, List.getD_eq_getElem?_getD, here, Option.getD_some]
  · obtain ⟨i, found, rfl⟩ := Option.map_eq_some_iff.mp h
    obtain ⟨inside, here, -⟩ := List.idxOf?_eq_some_iff.mp found
    have byte : i < 256 := page.length_table ▸ inside
    rw [decodeByte, Utf8.toNat_byte byte, List.getD_eq_getElem?_getD,
      List.getElem?_eq_getElem inside, here, Option.getD_some]

theorem decode_encode {s : List Char} {bytes : List UInt8} (h : page.encode s = .ok bytes) :
    page.decode bytes = s := by
  induction s generalizing bytes with
  | nil =>
    cases h
    rfl
  | cons c s ih =>
    rw [encode] at h
    cases char : page.encodeChar? c with
    | none =>
      rw [char] at h
      cases h
    | some b =>
      rw [char] at h
      obtain ⟨rest, later, rfl⟩ := Outcome.map_ok.mp h
      rw [decode, List.map_cons, decodeByte_encodeChar? char]
      exact congrArg (c :: ·) (ih later)

theorem encode_append {s t : List Char} {a b : List UInt8} (front : page.encode s = .ok a)
    (back : page.encode t = .ok b) : page.encode (s ++ t) = .ok (a ++ b) := by
  induction s generalizing a with
  | nil =>
    cases front
    exact back
  | cons c s ih =>
    rw [encode] at front
    rw [List.cons_append, encode]
    cases char : page.encodeChar? c with
    | none =>
      rw [char] at front
      cases front
    | some byte =>
      rw [char] at front
      obtain ⟨rest, later, rfl⟩ := Outcome.map_ok.mp front
      exact Outcome.map_ok.mpr ⟨_, ih later, rfl⟩

end CodePage

namespace Charset

def BuiltIn (c : Charset) : Prop :=
  ∀ encoding, c ≠ .web encoding

variable {c : Charset} {s t : List Char} {a b : List UInt8}

variable [Libraries]

theorem decode_encode (builtIn : c.BuiltIn) (h : c.encode s = .ok b) : c.decode b = .ok s := by
  cases c with
  | utf8 =>
    cases h
    exact Outcome.mapError_ok.mpr (Utf8.decode_encode s)
  | utf16 order =>
    cases h
    exact Outcome.mapError_ok.mpr (Utf16.decode_encode order s)
  | page page => exact congrArg Except.ok (CodePage.decode_encode (Outcome.mapError_ok.mp h))
  | web encoding => exact absurd rfl (builtIn encoding)

theorem encode_append (builtIn : c.BuiltIn) (front : c.encode s = .ok a)
    (back : c.encode t = .ok b) : c.encode (s ++ t) = .ok (a ++ b) := by
  cases c with
  | utf8 =>
    cases front
    cases back
    exact congrArg Except.ok List.flatMap_append
  | utf16 order =>
    cases front
    cases back
    exact congrArg Except.ok List.flatMap_append
  | page page =>
    exact Outcome.mapError_ok.mpr
      (CodePage.encode_append (Outcome.mapError_ok.mp front) (Outcome.mapError_ok.mp back))
  | web encoding => exact absurd rfl (builtIn encoding)

theorem encode_replicate (builtIn : c.BuiltIn) {char : Char} {byte : UInt8}
    (one : c.encode [char] = .ok [byte]) (count : Nat) :
    c.encode (List.replicate count char) = .ok (List.replicate count byte) := by
  induction count with
  | zero =>
    cases c with
    | web encoding => exact absurd rfl (builtIn encoding)
    | utf8 | utf16 | page => rfl
  | succ count ih =>
    rw [List.replicate_succ, List.replicate_succ]
    exact encode_append builtIn one ih

theorem decode_padded (builtIn : c.BuiltIn) (h : c.encode s = .ok a) {char : Char} {byte : UInt8}
    (one : c.encode [char] = .ok [byte]) (count : Nat) :
    c.decode (a ++ List.replicate count byte) = .ok (s ++ List.replicate count char) :=
  decode_encode builtIn (encode_append builtIn h (encode_replicate builtIn one count))

end Charset

end RecordCodec
