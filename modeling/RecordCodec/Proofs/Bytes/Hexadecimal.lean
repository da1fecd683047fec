import RecordCodec.Bytes.Hex

/-!
Hexadecimal text read back: the digits of a number denote the number, with zeros in front of them or
without, and the digits of bytes denote the bytes.
-/
namespace RecordCodec.Hex

def numberFrom? (n : Nat) (s : List Char) : Option Nat :=
  s.foldlM (fun n c => (digitValue? c).map (n * 16 + ·)) n

theorem digitValue?_digit : ∀ n < 16, digitValue? (digit n) = some n := by decide

theorem digitValue?_digitChar : ∀ n < 16, digitValue? n.digitChar = some n := by decide

theorem digit_range {c : Char} {d : Nat} (digit : digitValue? c = some d) :
    48 ≤ c.toNat ∧ c.toNat ≤ 102 := by
  unfold digitValue? at digit
  dsimp only at digit
  split at digit
  · omega
  · split at digit
    · omega
    · split at digit
      · omega
      · cases digit

theorem numberFrom?_append {n m : Nat} {s : List Char} (front : numberFrom? n s = some m)
    (t : List Char) : numberFrom? n (s ++ t) = numberFrom? m t := by
  unfold numberFrom? at *
  rw [List.foldlM_append, front]
  rfl

theorem digit_of_numberFrom? {n m : Nat} {s : List Char} (number : numberFrom? n s = some m) :
    ∀ c ∈ s, ∃ d, digitValue? c = some d := by
  induction s generalizing n with
  | nil => exact nofun
  | cons c s ih =>
    obtain ⟨next, first, later⟩ := Option.bind_eq_some_iff.mp number
    obtain ⟨d, digit, -⟩ := Option.map_eq_some_iff.mp first
    exact List.forall_mem_cons.mpr ⟨⟨d, digit⟩, ih later⟩

theorem numberFrom?_ofNat (n : Nat) : numberFrom? 0 (ofNat n) = some n := by
  induction n using Nat.strongRecOn with
  | _ n ih =>
    rw [ofNat, Nat.toDigits_eq_if (by decide)]
    split
    · rename_i small
      simp [numberFrom?, digitValue?_digitChar n small]
    · rename_i large
      have front : numberFrom? 0 (Nat.toDigits 16 (n / 16)) = some (n / 16) := ih _ (by omega)
      have last := digitValue?_digitChar (n % 16) (Nat.mod_lt _ (by decide))
      have value : n / 16 * 16 + n % 16 = n := by omega
      rw [numberFrom?_append front]
      simp [numberFrom?, last, value]

theorem numberFrom?_ofNatPadded (width n : Nat) :
    numberFrom? 0 (ofNatPadded width n) = some n := by
  have zeros (k : Nat) : numberFrom? 0 (List.replicate k '0') = some 0 := by
    induction k with
    | zero => rfl
    | succ k ih => exact ih
  rw [ofNatPadded, numberFrom?_append (zeros _), numberFrom?_ofNat]

theorem digit_of_mem_ofByte {b : UInt8} : ∀ c ∈ ofByte b, ∃ d, digitValue? c = some d := by
  have bound := b.toNat_lt
  simp only [ofByte, List.forall_mem_cons]
  exact ⟨⟨_, digitValue?_digit _ (by omega)⟩, ⟨_, digitValue?_digit _ (by omega)⟩, nofun⟩

theorem decode?_encode (bytes : List UInt8) : decode? (encode bytes) = some bytes := by
  induction bytes with
  | nil => rfl
  | cons b bytes ih =>
    have bound := b.toNat_lt
    have high := digitValue?_digit (b.toNat / 16) (by omega)
    have low := digitValue?_digit (b.toNat % 16) (by omega)
    have value : b.toNat / 16 * 16 + b.toNat % 16 = b.toNat := by omega
    have text : encode (b :: bytes) =
        digit (b.toNat / 16) :: digit (b.toNat % 16) :: encode bytes := rfl
    rw [text, decode?, high, low, ih]
    show some (UInt8.ofNat (b.toNat / 16 * 16 + b.toNat % 16) :: bytes) = _
    rw [value, UInt8.ofNat_toNat]

end RecordCodec.Hex
