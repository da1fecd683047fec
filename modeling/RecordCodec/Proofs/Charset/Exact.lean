import Mathlib.Data.List.Nodup
import RecordCodec.Libraries.Standard
import RecordCodec.Proofs.Charset.RoundTrip

/-!
The built-in character sets are exact. A byte string that reads as a text is what the text is
written as, so a text and its bytes determine each other; a text is refused only by a page that
lacks one of its characters, and bytes of UTF-16 only for a byte too many or for a surrogate
without its partner.
-/
namespace RecordCodec

namespace Utf8

theorem toNat_ofNat {n : Nat} (scalar : n < 0xD800 ∨ 0xE000 ≤ n ∧ n < 0x110000) :
    (Char.ofNat n).toNat = n := by
  have valid : n.isValidChar := scalar.imp id fun ⟨low, high⟩ => ⟨by omega, high⟩
  rw [Char.ofNat, dif_pos valid]
  rfl

theorem toNat_of_isContinuation {b : UInt8} (continues : isContinuation b = true) :
    b.toNat = 0x80 + low6 b ∧ low6 b < 64 := by
  simp only [isContinuation, Bool.and_eq_true, decide_eq_true_eq, UInt8.le_iff_toNat_le,
    UInt8.lt_iff_toNat_lt, UInt8.reduceToNat] at continues
  unfold low6
  omega

theorem tailByte_eq {b : UInt8} (continues : isContinuation b = true) {k : Nat}
    (payload : k % 64 = low6 b) : tailByte k = b := by
  have number := toNat_of_isContinuation continues
  have byte : 0x80 + k % 64 < 256 := by omega
  apply (byte_eq byte b).mpr
  omega

/-- The second byte of a longer character excludes short numbers, surrogates and numbers past the
last character. -/
theorem of_secondInRange {b second : UInt8} (inRange : secondInRange b second = true) :
    isContinuation second = true ∧ (b.toNat = 0xE0 → 0x20 ≤ low6 second) ∧
      (b.toNat = 0xED → low6 second < 0x20) ∧ (b.toNat = 0xF0 → 0x10 ≤ low6 second) ∧
      (b.toNat = 0xF4 → low6 second < 0x10) := by
  simp only [secondInRange, beq_iff_eq, ← UInt8.toNat_inj, UInt8.reduceToNat, isContinuation,
    Bool.and_eq_true, decide_eq_true_eq, UInt8.le_iff_toNat_le, UInt8.lt_iff_toNat_lt] at inRange ⊢
  unfold low6
  split_ifs at inRange <;> (simp only [Bool.and_eq_true, decide_eq_true_eq] at inRange; omega)

section

variable {n : Nat} {b b1 b2 b3 : UInt8}

theorem leadByte_eq {k : Nat} (number : k = b.toNat) : UInt8.ofNat k = b :=
  (byte_eq (number ▸ b.toNat_lt) b).mpr number

theorem encodeChar_one (small : b.toNat < 0x80) : encodeChar (Char.ofNat b.toNat) = [b] := by
  unfold encodeChar
  rw [toNat_ofNat (by omega)]
  exact (if_pos small).trans (congrArg (fun byte => [byte]) (leadByte_eq rfl))

theorem encodeChar_two (low : 0x80 ≤ n) (high : n < 0x800) (lead : 0xC0 + n / 64 = b.toNat)
    (first : isContinuation b1 = true) (payload : n % 64 = low6 b1) :
    encodeChar (Char.ofNat n) = [b, b1] := by
  unfold encodeChar
  rw [toNat_ofNat (by omega), ← leadByte_eq lead, ← tailByte_eq first payload]
  exact (if_neg (by omega)).trans (if_pos high)

theorem encodeChar_three (low : 0x800 ≤ n) (high : n < 0x10000)
    (scalar : n < 0xD800 ∨ 0xE000 ≤ n) (lead : 0xE0 + n / 4096 = b.toNat)
    (first : isContinuation b1 = true) (payload : n / 64 % 64 = low6 b1)
    (second : isContinuation b2 = true) (payload' : n % 64 = low6 b2) :
    encodeChar (Char.ofNat n) = [b, b1, b2] := by
  unfold encodeChar
  rw [toNat_ofNat (by omega), ← leadByte_eq lead, ← tailByte_eq first payload,
    ← tailByte_eq second payload']
  exact (if_neg (by omega)).trans ((if_neg (by omega)).trans (if_pos high))

theorem encodeChar_four (low : 0x10000 ≤ n) (high : n < 0x110000)
    (lead : 0xF0 + n / 262144 = b.toNat)
    (first : isContinuation b1 = true) (payload : n / 4096 % 64 = low6 b1)
    (second : isContinuation b2 = true) (payload' : n / 64 % 64 = low6 b2)
    (third : isContinuation b3 = true) (payload'' : n % 64 = low6 b3) :
    encodeChar (Char.ofNat n) = [b, b1, b2, b3] := by
  unfold encodeChar
  rw [toNat_ofNat (by omega), ← leadByte_eq lead, ← tailByte_eq first payload,
    ← tailByte_eq second payload', ← tailByte_eq third payload'']
  exact (if_neg (by omega)).trans ((if_neg (by omega)).trans (if_neg (by omega)))

end

def WrittenAs (b : UInt8) (rest : List UInt8) (c : Char) (n : Nat) : Prop :=
  ∃ tail later, rest = tail ++ later ∧ n = tail.length + 1 ∧ encodeChar c = b :: tail

section Widths

variable {b : UInt8} {rest : List UInt8} {c : Char} {n : Nat}

theorem next_eq (b : UInt8) (rest : List UInt8) : next b rest =
    if b.toNat < 0x80 then .char (Char.ofNat b.toNat) 1
    else if 0xC2 ≤ b.toNat ∧ b.toNat < 0xE0 then next b rest
    else if 0xE0 ≤ b.toNat ∧ b.toNat < 0xF0 then next b rest
    else if 0xF0 ≤ b.toNat ∧ b.toNat < 0xF5 then next b rest
    else .broken 1 := by
  unfold next
  simp only [Bool.and_eq_true, decide_eq_true_eq, UInt8.le_iff_toNat_le, UInt8.lt_iff_toNat_lt,
    UInt8.reduceToNat]
  split_ifs <;> rfl

theorem writtenAs_one (one : b.toNat < 0x80) (read : next b rest = .char c n) :
    WrittenAs b rest c n := by
  rw [next_eq, if_pos one] at read
  cases read
  exact ⟨[], rest, rfl, rfl, encodeChar_one one⟩

theorem writtenAs_two (low : 0xC2 ≤ b.toNat) (high : b.toNat < 0xE0)
    (read : next b rest = .char c n) : WrittenAs b rest c n := by
  simp only [next, Bool.and_eq_true, decide_eq_true_eq, UInt8.le_iff_toNat_le,
    UInt8.lt_iff_toNat_lt, UInt8.reduceToNat] at read
  rw [if_neg (by omega), if_pos ⟨low, high⟩] at read
  split at read
  · cases read
  rename_i b1 later
  split at read
  case isFalse => cases read
  rename_i first
  obtain ⟨rfl, rfl⟩ := Front.char.inj read
  have payload := toNat_of_isContinuation first
  exact ⟨[b1], later, rfl, rfl,
    encodeChar_two (by omega) (by omega) (by omega) first (by omega)⟩

theorem writtenAs_three (low : 0xE0 ≤ b.toNat) (high : b.toNat < 0xF0)
    (read : next b rest = .char c n) : WrittenAs b rest c n := by
  simp only [next, Bool.and_eq_true, decide_eq_true_eq, UInt8.le_iff_toNat_le,
    UInt8.lt_iff_toNat_lt, UInt8.reduceToNat] at read
  rw [if_neg (by omega), if_neg (by omega), if_pos ⟨low, high⟩] at read
  split at read
  · cases read
  split at read
  case isFalse => cases read
  rename_i b1 _ inRange
  split at read
  · cases read
  rename_i b2 later
  split at read
  case isFalse => cases read
  rename_i second
  obtain ⟨rfl, rfl⟩ := Front.char.inj read
  obtain ⟨first, least, scalar, -⟩ := of_secondInRange inRange
  have payload := toNat_of_isContinuation first
  have payload' := toNat_of_isContinuation second
  exact ⟨[b1, b2], later, rfl, rfl, encodeChar_three (by omega) (by omega) (by omega)
    (by omega) first (by omega) second (by omega)⟩

theorem writtenAs_four (low : 0xF0 ≤ b.toNat) (high : b.toNat < 0xF5)
    (read : next b rest = .char c n) : WrittenAs b rest c n := by
  simp only [next, Bool.and_eq_true, decide_eq_true_eq, UInt8.le_iff_toNat_le,
    UInt8.lt_iff_toNat_lt, UInt8.reduceToNat] at read
  rw [if_neg (by omega), if_neg (by omega), if_neg (by omega), if_pos ⟨low, high⟩] at read
  split at read
  · cases read
  split at read
  case isFalse => cases read
  rename_i b1 _ inRange
  split at read
  · cases read
  split at read
  case isFalse => cases read
  rename_i b2 _ second
  split at read
  · cases read
  rename_i b3 later
  split at read
  case isFalse => cases read
  rename_i third
  obtain ⟨rfl, rfl⟩ := Front.char.inj read
  obtain ⟨first, -, -, least, last⟩ := of_secondInRange inRange
  have payload := toNat_of_isContinuation first
  have payload' := toNat_of_isContinuation second
  have payload'' := toNat_of_isContinuation third
  exact ⟨[b1, b2, b3], later, rfl, rfl, encodeChar_four (by omega) (by omega) (by omega)
    first (by omega) second (by omega) third (by omega)⟩

theorem writtenAs_of_next (read : next b rest = .char c n) : WrittenAs b rest c n := by
  by_cases one : b.toNat < 0x80
  · exact writtenAs_one one read
  by_cases two : 0xC2 ≤ b.toNat ∧ b.toNat < 0xE0
  · exact writtenAs_two two.1 two.2 read
  by_cases three : 0xE0 ≤ b.toNat ∧ b.toNat < 0xF0
  · exact writtenAs_three three.1 three.2 read
  by_cases four : 0xF0 ≤ b.toNat ∧ b.toNat < 0xF5
  · exact writtenAs_four four.1 four.2 read
  -- no character begins with another byte
  rw [next_eq, if_neg one, if_neg two, if_neg three, if_neg four] at read
  cases read

end Widths

theorem encode_of_decodeFrom {bytes : List UInt8} {index skip : Nat} {s : List Char}
    (read : decodeFrom index skip bytes = .ok s) : encode s = bytes.drop skip := by
  induction bytes generalizing index skip s with
  | nil =>
    cases skip <;>
    · cases read
      rfl
  | cons b rest ih =>
    cases skip with
    | succ skip => exact ih read
    | zero =>
      rw [decodeFrom] at read
      split at read
      · rename_i c n front
        obtain ⟨tail, later, rfl, rfl, written⟩ := writtenAs_of_next front
        split at read <;> cases read
        rename_i s others
        have later := ih others
        rw [Nat.add_sub_cancel, List.drop_left] at later
        rw [encode, List.flatMap_cons, written]
        exact congrArg (b :: tail ++ ·) later
      · cases read
      · cases read

theorem encode_of_decode {bytes : List UInt8} {s : List Char} (read : decode bytes = .ok s) :
    encode s = bytes :=
  encode_of_decodeFrom read

end Utf8

namespace Utf16

def IsHigh (u : Nat) : Prop :=
  0xD800 ≤ u ∧ u < 0xDC00

def IsLow (u : Nat) : Prop :=
  0xDC00 ≤ u ∧ u < 0xE000

/-- The unit at a position is a surrogate without its partner: a high one with no low one behind
it, or a low one with no high one in front of it. -/
def LoneAt (us : List Nat) (i : Nat) : Prop :=
  ∃ u, us[i]? = some u ∧
    (IsHigh u ∧ (∀ v, us[i + 1]? = some v → ¬ IsLow v) ∨
      IsLow u ∧ ∀ j, j + 1 = i → ∀ v, us[j]? = some v → ¬ IsHigh v)

variable {order : ByteOrder} {u v : Nat} {us : List Nat}

theorem loneAt_zero : LoneAt (u :: us) 0 ↔
    IsHigh u ∧ (∀ v, us[0]? = some v → ¬ IsLow v) ∨ IsLow u := by
  simp [LoneAt]

theorem loneAt_add_two (i : Nat) : LoneAt (u :: us) (i + 2) ↔ LoneAt us (i + 1) := by
  simp [LoneAt]

theorem loneAt_succ (other : ¬ IsHigh u) (i : Nat) : LoneAt (u :: us) (i + 1) ↔ LoneAt us i := by
  cases i with
  | zero => simp [LoneAt, other]
  | succ i => exact loneAt_add_two i

theorem exists_loneAt_cons (other : ¬ IsHigh u) (other' : ¬ IsLow u) :
    (∃ i, LoneAt (u :: us) i) ↔ ∃ i, LoneAt us i := by
  rw [← Nat.or_exists_add_one, loneAt_zero]
  simp only [loneAt_succ other, other, other', false_and, false_or]

theorem exists_loneAt_pair (high : IsHigh u) (low : IsLow v) :
    (∃ i, LoneAt (u :: v :: us) i) ↔ ∃ i, LoneAt us i := by
  have lowOnly : ¬ IsHigh v := fun both => Nat.not_lt.mpr low.1 both.2
  have highOnly : ¬ IsLow u := fun both => Nat.not_lt.mpr both.1 high.2
  have first : ¬ LoneAt (u :: v :: us) 0 := by simp [loneAt_zero, low, highOnly]
  have second : ¬ LoneAt (u :: v :: us) 1 := by simp [LoneAt, high, lowOnly]
  rw [← Nat.or_exists_add_one, ← Nat.or_exists_add_one]
  simp only [first, second, loneAt_add_two, loneAt_succ lowOnly, false_or]

theorem ofUnits?_eq_none (us : List Nat) : ofUnits? us = none ↔ ∃ i, LoneAt us i := by
  fun_induction ofUnits? us with
  | case1 => simp [LoneAt]
  | case2 u rest scalar ih =>
    have other : ¬ IsHigh u := by unfold IsHigh; omega
    have other' : ¬ IsLow u := by unfold IsLow; omega
    rw [Option.map_eq_none_iff, ih, exists_loneAt_cons other other']
  | case3 u surrogate =>
    have either : IsHigh u ∨ IsLow u := by unfold IsHigh IsLow; omega
    exact iff_of_true rfl ⟨0, loneAt_zero.mpr (either.imp (fun high => ⟨high, nofun⟩) id)⟩
  | case4 u surrogate v rest pair ih =>
    have high : IsHigh u := ⟨by omega, pair.1⟩
    rw [Option.map_eq_none_iff, ih, exists_loneAt_pair high pair.2]
  | case5 u surrogate v rest unpaired =>
    refine iff_of_true rfl ⟨0, loneAt_zero.mpr ?_⟩
    by_cases high : u < 0xDC00
    · refine .inl ⟨⟨by omega, high⟩, fun w here low => ?_⟩
      cases here
      exact unpaired ⟨high, low⟩
    · exact .inr ⟨by omega, by omega⟩

theorem units_pair (high : IsHigh u) (low : IsLow v) :
    units (Char.ofNat (0x10000 + (u - 0xD800) * 1024 + (v - 0xDC00))) = [u, v] := by
  obtain ⟨atLeast, atMost⟩ := high
  obtain ⟨atLeast', atMost'⟩ := low
  have front : 0xD800 + (0x10000 + (u - 0xD800) * 1024 + (v - 0xDC00) - 0x10000) / 1024 = u := by
    omega
  have back : 0xDC00 + (0x10000 + (u - 0xD800) * 1024 + (v - 0xDC00) - 0x10000) % 1024 = v := by
    omega
  unfold units
  rw [Utf8.toNat_ofNat (by omega)]
  dsimp only
  rw [if_neg (by omega), front, back]

theorem units_ofUnits? {s : List Char} (words : ∀ u ∈ us, u < 0x10000)
    (read : ofUnits? us = some s) : s.flatMap units = us := by
  fun_induction ofUnits? us generalizing s with
  | case1 =>
    cases read
    rfl
  | case2 u rest scalar ih =>
    obtain ⟨s, later, rfl⟩ := Option.map_eq_some_iff.mp read
    obtain ⟨word, words⟩ := List.forall_mem_cons.mp words
    have number : (Char.ofNat u).toNat = u := Utf8.toNat_ofNat (by omega)
    rw [List.flatMap_cons, ih words later, units, number]
    exact congrArg (· ++ rest) (if_pos word)
  | case3 => cases read
  | case4 u surrogate v rest pair ih =>
    obtain ⟨s, later, rfl⟩ := Option.map_eq_some_iff.mp read
    have words := (List.forall_mem_cons.mp (List.forall_mem_cons.mp words).2).2
    rw [List.flatMap_cons, ih words later, units_pair ⟨by omega, pair.1⟩ pair.2]
    rfl
  | case5 => cases read

theorem unitsOfBytes_lt {bytes : List UInt8} : ∀ u ∈ unitsOfBytes order bytes, u < 0x10000 := by
  fun_induction unitsOfBytes order bytes with
  | case1 a b rest ih => exact List.forall_mem_cons.mpr ⟨order.decode_lt [a, b], ih⟩
  | case2 => nofun

theorem encode_unitsOfBytes {bytes : List UInt8} (even : bytes.length % 2 = 0) :
    (unitsOfBytes order bytes).flatMap (order.encode 2) = bytes := by
  fun_induction unitsOfBytes order bytes with
  | case1 a b rest ih =>
    have even' : rest.length % 2 = 0 := by
      rw [List.length_cons, List.length_cons] at even
      omega
    rw [List.flatMap_cons, ih even']
    exact congrArg (· ++ rest) (order.encode_decode [a, b])
  | case2 bytes short =>
    match bytes, even with
    | [], _ => rfl
    | a :: b :: rest, _ => exact absurd rfl (short a b rest)

theorem encode_of_decode {bytes : List UInt8} {s : List Char}
    (read : decode order bytes = .ok s) : encode order s = bytes := by
  unfold decode at read
  split at read
  · rename_i even
    split at read <;> cases read
    rename_i units
    rw [encode_eq, units_ofUnits? unitsOfBytes_lt units, encode_unitsOfBytes even]
  · cases read

theorem decode_error {bytes : List UInt8} {fault : Fault} :
    decode order bytes = .error fault ↔
      bytes.length % 2 = 1 ∧ fault = .oddLength bytes.length ∨
      bytes.length % 2 = 0 ∧ (∃ i, LoneAt (unitsOfBytes order bytes) i) ∧
        fault = .loneSurrogate := by
  unfold decode
  split
  · rename_i even
    rw [← ofUnits?_eq_none]
    split <;> rename_i units <;> simp [even, units, eq_comm]
  · rename_i odd
    simp [Nat.mod_two_ne_zero.mp odd, eq_comm]

end Utf16

namespace CodePage

variable {page : CodePage} {c : Char} {b : UInt8}

def distinctFrom (seen : Nat) : List Nat → Bool
  | [] => true
  | n :: rest => !seen.testBit n && distinctFrom (seen ||| 2 ^ n) rest

theorem nodup_of_distinctFrom {ns : List Nat} {seen : Nat} (h : distinctFrom seen ns = true) :
    ns.Nodup ∧ ∀ n ∈ ns, seen.testBit n = false := by
  induction ns generalizing seen with
  | nil => exact ⟨.nil, nofun⟩
  | cons n rest ih =>
    obtain ⟨fresh, later⟩ := Bool.and_eq_true_iff.mp h
    obtain ⟨nodup, apart⟩ := ih later
    simp only [Nat.testBit_or, Nat.testBit_two_pow, Bool.or_eq_false_iff,
      decide_eq_false_iff_not] at apart
    refine ⟨List.nodup_cons.mpr ⟨fun again => (apart n again).2 rfl, nodup⟩, ?_⟩
    exact List.forall_mem_cons.mpr ⟨by simpa using fresh, fun m listed => (apart m listed).1⟩

theorem nodup_table (page : CodePage) : page.table.Nodup := by
  have distinct : distinctFrom 0 (page.table.map Char.toNat) = true := by
    cases page <;> decide +kernel
  exact List.Nodup.of_map _ (nodup_of_distinctFrom distinct).1

theorem table_decodeByte (page : CodePage) (b : UInt8) :
    page.table[b.toNat]? = some (page.decodeByte b) := by
  have inside : b.toNat < page.table.length := page.length_table ▸ b.toNat_lt
  rw [decodeByte, List.getD_eq_getElem?_getD, List.getElem?_eq_getElem inside, Option.getD_some]

theorem idxOf?_of_getElem? {i : Nat} (here : page.table[i]? = some c) :
    page.table.idxOf? c = some i := by
  obtain ⟨inside, here⟩ := List.getElem?_eq_some_iff.mp here
  refine List.idxOf?_eq_some_iff.mpr ⟨inside, here, fun j before again => ?_⟩
  exact Nat.ne_of_lt before (page.nodup_table.getElem_inj_iff.mp (again.trans here.symm))

theorem encodeChar?_eq (page : CodePage) (c : Char) :
    page.encodeChar? c = (page.table.idxOf? c).map UInt8.ofNat := by
  unfold encodeChar?
  split
  · rename_i direct
    simp only [Bool.and_eq_true, beq_iff_eq] at direct
    rw [idxOf?_of_getElem? direct.2, Option.map_some]
  · rfl

theorem encodeChar?_decodeByte (page : CodePage) (b : UInt8) :
    page.encodeChar? (page.decodeByte b) = some b := by
  rw [encodeChar?_eq, idxOf?_of_getElem? (page.table_decodeByte b), Option.map_some,
    UInt8.ofNat_toNat]

theorem encodeChar?_eq_none : page.encodeChar? c = none ↔ c ∉ page.table := by
  rw [encodeChar?_eq, Option.map_eq_none_iff, List.idxOf?_eq_none_iff]

theorem encode_decode (page : CodePage) (bytes : List UInt8) :
    page.encode (page.decode bytes) = .ok bytes := by
  induction bytes with
  | nil => rfl
  | cons b bytes ih =>
    change page.encode (page.decodeByte b :: page.decode bytes) = _
    rw [encode, encodeChar?_decodeByte]
    exact Outcome.map_ok.mpr ⟨bytes, ih, rfl⟩

theorem encode_error {s : List Char} :
    page.encode s = .error c ↔ s.find? (· ∉ page.table) = some c := by
  induction s with
  | nil => exact iff_of_false nofun nofun
  | cons d s ih =>
    rw [encode, List.find?_cons]
    cases char : page.encodeChar? d with
    | none => simp [encodeChar?_eq_none.mp char, eq_comm]
    | some b =>
      have listed : d ∈ page.table := by
        by_contra missing
        rw [encodeChar?_eq_none.mpr missing] at char
        cases char
      simp only [listed, not_true_eq_false, decide_false]
      exact Outcome.map_error.trans ih

theorem exists_encode_error {s : List Char} :
    (∃ c, page.encode s = .error c) ↔ ∃ c ∈ s, c ∉ page.table := by
  simp only [encode_error, ← Option.isSome_iff_exists, List.find?_isSome, decide_eq_true_eq]

end CodePage

namespace Charset

variable {c : Charset}

section

variable [Libraries]

theorem encode_of_decode (builtIn : c.BuiltIn) {b : List UInt8} {s : List Char}
    (h : c.decode b = .ok s) : c.encode s = .ok b := by
  cases c with
  | utf8 => exact congrArg Except.ok (Utf8.encode_of_decode (Outcome.mapError_ok.mp h))
  | utf16 order => exact congrArg Except.ok (Utf16.encode_of_decode (Outcome.mapError_ok.mp h))
  | page page =>
    cases h
    exact Outcome.mapError_ok.mpr (page.encode_decode b)
  | web encoding => exact absurd rfl (builtIn encoding)

theorem encode_eq_ok (builtIn : c.BuiltIn) {s : List Char} {b : List UInt8} :
    c.encode s = .ok b ↔ c.decode b = .ok s :=
  ⟨decode_encode builtIn, encode_of_decode builtIn⟩

theorem encode_eq_error (builtIn : c.BuiltIn) {s : List Char} {fault : Fault} :
    c.encode s = .error fault ↔ ∃ page char, c = .page page ∧
      s.find? (· ∉ page.table) = some char ∧ fault = .notInPage char page := by
  cases c with
  | utf8 => exact iff_of_false nofun nofun
  | utf16 order => exact iff_of_false nofun nofun
  | page page =>
    constructor
    · intro refused
      obtain ⟨char, first, rfl⟩ := Outcome.mapError_error.mp refused
      exact ⟨page, char, rfl, CodePage.encode_error.mp first, rfl⟩
    · rintro ⟨_, char, ⟨⟩, first, rfl⟩
      exact Outcome.mapError_error.mpr ⟨char, CodePage.encode_error.mpr first, rfl⟩
  | web encoding => exact absurd rfl (builtIn encoding)

theorem exists_encode_error (builtIn : c.BuiltIn) {s : List Char} :
    (∃ fault, c.encode s = .error fault) ↔
      ∃ page, c = .page page ∧ ∃ char ∈ s, char ∉ page.table := by
  simp only [encode_eq_error builtIn, ← CodePage.exists_encode_error, CodePage.encode_error]
  constructor
  · rintro ⟨_, page, char, same, first, -⟩
    exact ⟨page, same, char, first⟩
  · rintro ⟨page, same, char, first⟩
    exact ⟨_, page, char, same, first, rfl⟩

theorem decode_utf16_eq_error {order : ByteOrder} {b : List UInt8} {fault : Fault} :
    decode (.utf16 order) b = .error fault ↔
      b.length % 2 = 1 ∧ fault = .invalidUtf16 (.oddLength b.length) ∨
      b.length % 2 = 0 ∧ (∃ i, Utf16.LoneAt (Utf16.unitsOfBytes order b) i) ∧
        fault = .invalidUtf16 .loneSurrogate := by
  unfold decode
  simp only [Outcome.mapError_error, Utf16.decode_error]
  constructor
  · rintro ⟨_, ⟨odd, rfl⟩ | ⟨even, lone, rfl⟩, rfl⟩
    · exact .inl ⟨odd, rfl⟩
    · exact .inr ⟨even, lone, rfl⟩
  · rintro (⟨odd, rfl⟩ | ⟨even, lone, rfl⟩)
    · exact ⟨_, .inl ⟨odd, rfl⟩, rfl⟩
    · exact ⟨_, .inr ⟨even, lone, rfl⟩, rfl⟩

/-- The conversions of a character set undo each other, and fail only where they have to. -/
structure Exact (c : Charset) : Prop where
  /-- A text is written as those bytes that are read as the text. -/
  inverse : ∀ s b, c.encode s = .ok b ↔ c.decode b = .ok s
  /-- Only a page refuses a text, for a character that it does not have. -/
  unwritable : ∀ s, (∃ fault, c.encode s = .error fault) ↔
    ∃ page, c = .page page ∧ ∃ char ∈ s, char ∉ page.table
  /-- The fault names the first such character. -/
  refused : ∀ s fault, c.encode s = .error fault ↔ ∃ page char, c = .page page ∧
    s.find? (· ∉ page.table) = some char ∧ fault = .notInPage char page
  /-- All bytes are characters of a page. -/
  readable : ∀ page, c = .page page → ∀ b, ∃ s, c.decode b = .ok s
  /-- UTF-16 refuses a byte too many, and then a surrogate without its partner. -/
  malformed : ∀ order, c = .utf16 order → ∀ b fault, c.decode b = .error fault ↔
    b.length % 2 = 1 ∧ fault = .invalidUtf16 (.oddLength b.length) ∨
    b.length % 2 = 0 ∧ (∃ i, Utf16.LoneAt (Utf16.unitsOfBytes order b) i) ∧
      fault = .invalidUtf16 .loneSurrogate

/-- The character sets that are no encodings of the web are exact. -/
theorem builtIn_exact (builtIn : c.BuiltIn) : c.Exact where
  inverse _ _ := encode_eq_ok builtIn
  unwritable _ := exists_encode_error builtIn
  refused _ _ := encode_eq_error builtIn
  readable := by
    rintro page rfl b
    exact ⟨page.decode b, rfl⟩
  malformed := by
    rintro order rfl b fault
    exact decode_utf16_eq_error

end

theorem cp037_exact :
    BuiltIn (.page .cp037) ∧ encode (.page .cp037) ['A'] = .ok [0xC1] ∧
      encode (.page .cp037) ['A', '€'] = .error (.notInPage '€' .cp037) := by
  have builtIn : BuiltIn (.page .cp037) := nofun
  have exact := builtIn_exact builtIn
  exact ⟨builtIn, (exact.inverse _ _).mpr (by decide),
    (exact.refused _ _).mpr ⟨.cp037, '€', rfl, by decide, rfl⟩⟩

end Charset

end RecordCodec
