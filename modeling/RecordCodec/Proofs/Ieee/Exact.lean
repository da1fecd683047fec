import Mathlib.Algebra.Order.Field.Power
import Mathlib.Data.Int.Log
import Mathlib.Data.Rat.Floor
import Mathlib.Tactic.Positivity
import RecordCodec.Value.Floating

/-!
Numbers that a format holds exactly. Rounding gives such a number its own pattern, so a number that
was rounded to four bytes passes through a double unchanged.
-/
namespace RecordCodec.Ieee.Format

/-- A mantissa and an exponent that some finite pattern stands for. -/
structure Holds (f : Format) (m : Nat) (e : Int) : Prop where
  least : f.minExponent ≤ e
  bounded : m < 2 ^ (f.fractionBits + 1)
  leading : 2 ^ f.fractionBits ≤ m ∨ e = f.minExponent

def pattern (f : Format) (m : Nat) (e : Int) : Nat :=
  (e - f.minExponent).toNat * 2 ^ f.fractionBits + m

theorem unscale_value {n d : Nat} (positive : 0 < d) (e : Int) :
    0 < (unscale n d e).2 ∧
      ((unscale n d e).1 : ℚ) / (unscale n d e).2 = (n : ℚ) / d / 2 ^ e := by
  unfold unscale
  split
  · rename_i up
    have power : (2 : ℚ) ^ e = 2 ^ e.toNat := by
      conv_lhs => rw [← Int.toNat_of_nonneg up, zpow_natCast]
    refine ⟨Nat.mul_pos positive (Nat.two_pow_pos _), ?_⟩
    simp only [Nat.pow_eq, Nat.cast_mul, Nat.cast_pow, Nat.cast_ofNat]
    rw [power, div_div]
  · rename_i down
    have power : (2 : ℚ) ^ e = (2 ^ (-e).toNat)⁻¹ := by
      rw [← zpow_natCast, Int.toNat_of_nonneg (by omega), zpow_neg, inv_inv]
    refine ⟨positive, ?_⟩
    simp only [Nat.pow_eq, Nat.cast_mul, Nat.cast_pow, Nat.cast_ofNat]
    rw [power, div_inv_eq_mul, div_mul_eq_mul_div]

theorem le_log_iff {x : ℚ} (positive : 0 < x) {k : Int} : k ≤ Int.log 2 x ↔ 2 ^ k ≤ x := by
  simpa using (Int.zpow_le_iff_le_log one_lt_two positive).symm

theorem log_lt_iff {x : ℚ} (positive : 0 < x) {k : Int} : Int.log 2 x < k ↔ x < 2 ^ k := by
  simpa using (Int.lt_zpow_iff_log_lt one_lt_two positive).symm

theorem floorLog2_eq_log {n d : Nat} (number : 0 < n) (positive : 0 < d) :
    floorLog2 n d = Int.log 2 ((n : ℚ) / d) := by
  have quotient : (0 : ℚ) < n / d := by positivity
  obtain ⟨denominator, value⟩ := unscale_value (n := n) positive ((n.log2 : Int) - d.log2)
  have top : (n : ℚ) < 2 ^ (n.log2 + 1) := by exact_mod_cast Nat.lt_log2_self
  have bottom : (2 : ℚ) ^ n.log2 ≤ n := by exact_mod_cast Nat.log2_self_le number.ne'
  have above : (d : ℚ) < 2 ^ (d.log2 + 1) := by exact_mod_cast Nat.lt_log2_self
  have below : (2 : ℚ) ^ d.log2 ≤ d := by exact_mod_cast Nat.log2_self_le positive.ne'
  -- the quotient of the leading powers is off by less than a factor of two
  have low : (2 : ℚ) ^ ((n.log2 : Int) - d.log2 - 1) ≤ n / d := by
    rw [le_div_iff₀ (by positivity)]
    calc (2 : ℚ) ^ ((n.log2 : Int) - d.log2 - 1) * d
        ≤ 2 ^ ((n.log2 : Int) - d.log2 - 1) * 2 ^ (d.log2 + 1) := by gcongr
      _ = 2 ^ n.log2 := by
        rw [← zpow_natCast, ← zpow_natCast, ← zpow_add₀ two_ne_zero]
        congr 1
        push_cast
        ring
      _ ≤ n := bottom
  have high : (n : ℚ) / d < 2 ^ ((n.log2 : Int) - d.log2 + 1) := by
    rw [div_lt_iff₀ (by positivity)]
    calc (n : ℚ) < 2 ^ (n.log2 + 1) := top
      _ = 2 ^ ((n.log2 : Int) - d.log2 + 1) * 2 ^ d.log2 := by
        rw [← zpow_natCast, ← zpow_natCast, ← zpow_add₀ two_ne_zero]
        congr 1
        push_cast
        ring
      _ ≤ 2 ^ ((n.log2 : Int) - d.log2 + 1) * d := by gcongr
  rw [← le_log_iff quotient] at low
  rw [← log_lt_iff quotient] at high
  unfold floorLog2
  dsimp only
  have cut : (unscale n d ((n.log2 : Int) - d.log2)).1 <
      (unscale n d ((n.log2 : Int) - d.log2)).2 ↔
        Int.log 2 ((n : ℚ) / d) < (n.log2 : Int) - d.log2 := by
    rw [log_lt_iff quotient, ← Nat.cast_lt (α := ℚ),
      ← div_lt_one (by exact_mod_cast denominator), value, div_lt_one (by positivity)]
  split
  · rename_i less
    have below := cut.mp less
    omega
  · rename_i more
    have above := fun less => more (cut.mpr less)
    omega

theorem roundHalfEven_mul {m d : Nat} (positive : 0 < d) : roundHalfEven (m * d) d = m := by
  simp [roundHalfEven, Nat.mul_div_cancel _ positive, Nat.mul_mod_left]
  omega

theorem nearest_exact {f : Format} {m : Nat} {e : Int} (holds : f.Holds m e) (given : 0 < m)
    (negative : Bool) {n d : Nat} (positive : 0 < d) (value : (n : ℚ) / d = m * 2 ^ e) :
    f.nearest negative n d = f.signBit negative + min (f.pattern m e) f.infinity := by
  have quotient : (0 : ℚ) < n / d := by
    rw [value]
    positivity
  have number : 0 < n := by
    by_contra none
    rw [Nat.eq_zero_of_not_pos none] at quotient
    simp at quotient
  have high : Int.log 2 ((n : ℚ) / d) < f.fractionBits + 1 + e := by
    have bounded : (m : ℚ) < 2 ^ (f.fractionBits + 1) := by exact_mod_cast holds.bounded
    rw [log_lt_iff quotient, value, zpow_add₀ two_ne_zero]
    exact mul_lt_mul_of_pos_right (by exact_mod_cast bounded) (by positivity)
  have exponent : max f.minExponent (floorLog2 n d - f.fractionBits) = e := by
    rw [floorLog2_eq_log number positive]
    rcases holds.leading with leading | least
    · have low : (f.fractionBits + e : Int) ≤ Int.log 2 ((n : ℚ) / d) := by
        rw [← Int.zpow_le_iff_le_log one_lt_two quotient, value]
        push_cast
        rw [zpow_add₀ two_ne_zero]
        gcongr
        exact_mod_cast leading
      have := holds.least
      omega
    · omega
  obtain ⟨denominator, scaled⟩ := unscale_value (n := n) positive e
  have exact : (unscale n d e).1 = m * (unscale n d e).2 := by
    rw [value, mul_div_assoc, div_self (by positivity), mul_one,
      div_eq_iff (by exact_mod_cast denominator.ne')] at scaled
    exact_mod_cast scaled
  rw [nearest, if_neg number.ne']
  dsimp only
  rw [exponent, exact, roundHalfEven_mul denominator]
  rfl

theorem nearestScaled_zero (f : Format) (negative : Bool) (e : Int) :
    f.nearestScaled negative 0 e = f.signBit negative := by
  unfold nearestScaled
  split <;> simp [nearest]

theorem nearestScaled_exact {f : Format} {m : Nat} {e : Int} (holds : f.Holds m e) (given : 0 < m)
    (negative : Bool) {n : Nat} {x : Int} (value : (n : ℚ) * 2 ^ x = m * 2 ^ e) :
    f.nearestScaled negative n x = f.signBit negative + min (f.pattern m e) f.infinity := by
  unfold nearestScaled
  split
  · rename_i up
    apply nearest_exact holds given negative Nat.one_pos
    have power : (2 : ℚ) ^ x = 2 ^ x.toNat := by
      conv_lhs => rw [← Int.toNat_of_nonneg up, zpow_natCast]
    rw [← value, power]
    simp
  · rename_i down
    apply nearest_exact holds given negative (Nat.two_pow_pos _)
    have power : (2 : ℚ) ^ x = (2 ^ (-x).toNat)⁻¹ := by
      rw [← zpow_natCast, Int.toNat_of_nonneg (by omega), zpow_neg, inv_inv]
    rw [← value, power]
    simp [div_eq_mul_inv]

theorem nearestScaled_le (f : Format) (negative : Bool) (m : Nat) (e : Int) :
    ∃ y ≤ f.infinity, f.nearestScaled negative m e = f.signBit negative + y := by
  have nearest_le : ∀ n d, ∃ y ≤ f.infinity, f.nearest negative n d = f.signBit negative + y := by
    intro n d
    unfold nearest
    split
    · exact ⟨0, Nat.zero_le _, rfl⟩
    · exact ⟨_, Nat.min_le_right .., rfl⟩
  unfold nearestScaled
  split
  · exact nearest_le ..
  · exact nearest_le ..

theorem decode_fields (f : Format) (negative : Bool) {x r : Nat} (exponent : x < 2 ^ f.exponentBits)
    (fraction : r < 2 ^ f.fractionBits) :
    f.decode (f.signBit negative + (x * 2 ^ f.fractionBits + r)) =
      if x = 2 ^ f.exponentBits - 1 then
        if r = 0 then .infinite negative else .nan negative r
      else if x = 0 then .finite negative r f.minExponent
      else .finite negative (r + 2 ^ f.fractionBits) (f.minExponent + x - 1) := by
  obtain ⟨s, small, sign, bit⟩ : ∃ s < 2, f.signBit negative =
      s * 2 ^ f.exponentBits * 2 ^ f.fractionBits ∧ (s == 1) = negative := by
    cases negative with
    | false => exact ⟨0, by decide, by simp [signBit], rfl⟩
    | true => exact ⟨1, by decide, by simp [signBit, Nat.pow_add], rfl⟩
  have whole : (f.signBit negative + (x * 2 ^ f.fractionBits + r)) / 2 ^ f.fractionBits =
      s * 2 ^ f.exponentBits + x := by
    rw [sign, ← Nat.add_assoc, ← Nat.add_mul, Nat.mul_comm, Nat.mul_add_div (Nat.two_pow_pos _),
      Nat.div_eq_of_lt fraction, Nat.add_zero]
  have low : (f.signBit negative + (x * 2 ^ f.fractionBits + r)) % 2 ^ f.fractionBits = r := by
    rw [sign, ← Nat.add_assoc, ← Nat.add_mul, Nat.mul_comm, Nat.mul_add_mod,
      Nat.mod_eq_of_lt fraction]
  have middle : (s * 2 ^ f.exponentBits + x) % 2 ^ f.exponentBits = x := by
    rw [Nat.mul_comm, Nat.mul_add_mod, Nat.mod_eq_of_lt exponent]
  have high : (s * 2 ^ f.exponentBits + x) / 2 ^ f.exponentBits = s := by
    rw [Nat.mul_comm, Nat.mul_add_div (Nat.two_pow_pos _), Nat.div_eq_of_lt exponent,
      Nat.add_zero]
  unfold decode
  simp only [Nat.pow_eq]
  rw [Nat.add_comm f.exponentBits, Nat.pow_add, ← Nat.div_div_eq_div_mul, whole, low, middle, high,
    Nat.mod_eq_of_lt small, bit]

theorem exists_fields (f : Format) {n : Nat}
    (bounded : n < 2 ^ (f.exponentBits + f.fractionBits + 1)) :
    ∃ negative x r, x < 2 ^ f.exponentBits ∧ r < 2 ^ f.fractionBits ∧
      n = f.signBit negative + (x * 2 ^ f.fractionBits + r) := by
  obtain ⟨negative, y, inside, rfl⟩ : ∃ negative, ∃ y < 2 ^ (f.exponentBits + f.fractionBits),
      n = f.signBit negative + y := by
    by_cases plain : n < 2 ^ (f.exponentBits + f.fractionBits)
    · exact ⟨false, n, plain, by simp [signBit]⟩
    · refine ⟨true, n - 2 ^ (f.exponentBits + f.fractionBits), ?_, ?_⟩
      · rw [Nat.pow_succ] at bounded
        omega
      · simp only [signBit, Nat.pow_eq, if_true]
        omega
  refine ⟨negative, y / 2 ^ f.fractionBits, y % 2 ^ f.fractionBits, ?_,
    Nat.mod_lt _ (Nat.two_pow_pos _), ?_⟩
  · rw [Nat.div_lt_iff_lt_mul (Nat.two_pow_pos _), ← Nat.pow_add]
    exact inside
  · rw [Nat.mul_comm, Nat.div_add_mod]

theorem decode_pattern {f : Format} {m : Nat} {e : Int} (holds : f.Holds m e)
    (finite : f.pattern m e < f.infinity) (negative : Bool) :
    f.decode (f.signBit negative + f.pattern m e) = .finite negative m e := by
  have top : f.infinity + 2 ^ f.fractionBits = 2 ^ f.exponentBits * 2 ^ f.fractionBits := by
    simp only [infinity, Nat.pow_eq]
    rw [← Nat.succ_mul, Nat.succ_eq_add_one, Nat.sub_add_cancel (Nat.two_pow_pos _)]
  have bounded := holds.bounded
  rw [Nat.pow_succ] at bounded
  by_cases subnormal : m < 2 ^ f.fractionBits
  · have least : e = f.minExponent := holds.leading.resolve_left (Nat.not_le_of_lt subnormal)
    have same : f.pattern m e = 0 * 2 ^ f.fractionBits + m := by simp [pattern, least]
    have given : 0 ≠ 2 ^ f.exponentBits - 1 := by
      intro none
      simp [infinity, ← none] at finite
    rw [same, decode_fields f negative (Nat.two_pow_pos _) subnormal, if_neg given, if_pos rfl,
      least]
  · obtain ⟨r, rfl⟩ := Nat.exists_eq_add_of_le' (Nat.le_of_not_lt subnormal)
    have same : f.pattern (r + 2 ^ f.fractionBits) e =
        ((e - f.minExponent).toNat + 1) * 2 ^ f.fractionBits + r := by
      rw [pattern]
      ring
    rw [same] at finite ⊢
    have below : (e - f.minExponent).toNat + 1 < 2 ^ f.exponentBits - 1 := by
      have product : ((e - f.minExponent).toNat + 1) * 2 ^ f.fractionBits < f.infinity := by omega
      exact Nat.lt_of_mul_lt_mul_right product
    rw [decode_fields f negative (by omega) (by omega), if_neg (by omega), if_neg (by omega)]
    have := holds.least
    congr 1
    omega

theorem holds_of_decode {f : Format} {n m : Nat} {e : Int} {negative : Bool}
    (bounded : n < 2 ^ (f.exponentBits + f.fractionBits + 1))
    (finite : f.decode n = .finite negative m e) :
    f.Holds m e ∧ n = f.signBit negative + f.pattern m e ∧ f.pattern m e < f.infinity := by
  obtain ⟨sign, x, r, exponent, fraction, rfl⟩ := f.exists_fields bounded
  rw [decode_fields f sign exponent fraction] at finite
  split at finite
  · split at finite <;> cases finite
  · rename_i below
    have least : (x + 1) * 2 ^ f.fractionBits ≤ f.infinity :=
      Nat.mul_le_mul_right _ (by simp only [Nat.pow_eq]; omega)
    rw [Nat.add_mul, Nat.one_mul] at least
    split at finite
    · rename_i subnormal
      injection finite with sign' mantissa scale
      subst sign' mantissa scale
      have same : f.pattern r f.minExponent = x * 2 ^ f.fractionBits + r := by
        simp [pattern, subnormal]
      refine ⟨⟨Int.le_refl _, ?_, .inr rfl⟩, by rw [same], by rw [same]; omega⟩
      rw [Nat.pow_succ]
      omega
    · rename_i normal
      injection finite with sign' mantissa scale
      subst sign' mantissa scale
      have same : f.pattern (r + 2 ^ f.fractionBits) (f.minExponent + x - 1) =
          x * 2 ^ f.fractionBits + r := by
        have exponent : (f.minExponent + x - 1 - f.minExponent).toNat = x - 1 := by omega
        obtain ⟨k, rfl⟩ := Nat.exists_eq_succ_of_ne_zero normal
        rw [pattern, exponent, Nat.succ_sub_one, Nat.succ_mul]
        omega
      refine ⟨⟨by omega, ?_, .inl (Nat.le_add_left ..)⟩, by rw [same], by rw [same]; omega⟩
      rw [Nat.pow_succ]
      omega

theorem nearestScaled_of_decode {f : Format} {n m : Nat} {e : Int} {negative : Bool}
    (bounded : n < 2 ^ (f.exponentBits + f.fractionBits + 1))
    (finite : f.decode n = .finite negative m e) {k : Nat} {x : Int}
    (value : (k : ℚ) * 2 ^ x = m * 2 ^ e) : f.nearestScaled negative k x = n := by
  obtain ⟨holds, same, inside⟩ := holds_of_decode bounded finite
  by_cases given : 0 < m
  · rw [nearestScaled_exact holds given negative value, same, Nat.min_eq_left (Nat.le_of_lt inside)]
  · have zero : m = 0 := Nat.eq_zero_of_not_pos given
    have none : k = 0 := by
      have power : (2 : ℚ) ^ x ≠ 0 := by positivity
      simpa [zero, power] using value
    have least : e = f.minExponent := by
      refine holds.leading.resolve_left ?_
      rw [zero]
      exact Nat.not_le_of_lt (Nat.two_pow_pos _)
    rw [none, nearestScaled_zero, same, pattern, least, zero]
    simp

theorem exists_double {m : Nat} {e : Int} (holds : single.Holds m e) (given : 0 < m)
    (finite : single.pattern m e < single.infinity) :
    ∃ m' e', double.Holds m' e' ∧ 0 < m' ∧ double.pattern m' e' < double.infinity ∧
      (m' : ℚ) * 2 ^ e' = m * 2 ^ e := by
  have log_lt : m.log2 < 24 := (Nat.log2_lt given.ne').mpr holds.bounded
  have below : 2 ^ m.log2 ≤ m := Nat.log2_self_le given.ne'
  have above : m < 2 ^ (m.log2 + 1) := Nat.lt_log2_self
  -- the leading bit moves up to the highest place of the wider mantissa
  have power : ∀ k, k ≤ 52 → (2 : Nat) ^ k * 2 ^ (52 - k) = 2 ^ 52 := by
    intro k hk
    rw [← Nat.pow_add, Nat.add_sub_cancel' hk]
  have low : 2 ^ 52 ≤ m * 2 ^ (52 - m.log2) := by
    rw [← power m.log2 (by omega)]
    exact Nat.mul_le_mul_right _ below
  have high : m * 2 ^ (52 - m.log2) < 2 ^ 53 := by
    have product := Nat.mul_lt_mul_of_pos_right above (Nat.two_pow_pos (52 - m.log2))
    rw [Nat.pow_succ, Nat.mul_right_comm, power m.log2 (by omega)] at product
    exact product
  have least : -149 ≤ e := holds.least
  have greatest : e ≤ 104 := by
    have inside : (e - -149).toNat * 2 ^ 23 + m < 255 * 2 ^ 23 := finite
    have leading : 2 ^ 23 ≤ m ∨ e = -149 := holds.leading
    omega
  refine ⟨m * 2 ^ (52 - m.log2), e - (52 - m.log2 : Nat), ⟨?_, high, .inl low⟩, ?_, ?_, ?_⟩
  · show (-1074 : Int) ≤ _
    omega
  · omega
  · show (e - (52 - m.log2 : Nat) - -1074).toNat * 2 ^ 52 + m * 2 ^ (52 - m.log2) < 2047 * 2 ^ 52
    omega
  · push_cast
    rw [mul_assoc, ← zpow_natCast, ← zpow_add₀ two_ne_zero]
    congr 2
    omega

theorem decode_special (f : Format) (negative : Bool) {r : Nat} (bounded : r < 2 ^ f.fractionBits) :
    f.decode (f.signBit negative + f.infinity + r) =
      if r = 0 then .infinite negative else .nan negative r := by
  have below : 2 ^ f.exponentBits - 1 < 2 ^ f.exponentBits :=
    Nat.sub_lt (Nat.two_pow_pos _) Nat.one_pos
  have fields := decode_fields f negative below bounded
  rw [if_pos rfl, ← Nat.add_assoc] at fields
  exact fields

theorem decode_ne_nan (f : Format) {y : Nat} (top : y ≤ f.infinity) (negative sign : Bool)
    (payload : Nat) : f.decode (f.signBit negative + y) ≠ .nan sign payload := by
  intro nan
  have least : 0 < 2 ^ f.exponentBits := Nat.two_pow_pos _
  have positive : 0 < 2 ^ f.fractionBits := Nat.two_pow_pos _
  have infinity : f.infinity = (2 ^ f.exponentBits - 1) * 2 ^ f.fractionBits := rfl
  have exponent : y / 2 ^ f.fractionBits ≤ 2 ^ f.exponentBits - 1 := by
    rw [infinity] at top
    exact Nat.div_le_of_le_mul (by rwa [Nat.mul_comm])
  have parts : y = y / 2 ^ f.fractionBits * 2 ^ f.fractionBits + y % 2 ^ f.fractionBits := by
    rw [Nat.mul_comm, Nat.div_add_mod]
  rw [parts, decode_fields f negative (by omega) (Nat.mod_lt _ positive)] at nan
  split at nan
  · rename_i greatest
    rw [greatest] at parts
    rw [if_pos (by omega)] at nan
    cases nan
  · split at nan <;> cases nan

theorem payload_lt_of_decode {f : Format} {bits payload : Nat} {negative : Bool}
    (h : f.decode bits = .nan negative payload) : payload < 2 ^ f.fractionBits := by
  unfold decode at h
  dsimp only at h
  split at h
  · split at h
    · cases h
    · cases h
      exact Nat.mod_lt _ (Nat.two_pow_pos _)
  · split at h <;> cases h

theorem decode_ofPayload {f : Format} (fraction : 0 < f.fractionBits) (negative : Bool)
    {width payload : Nat} (bounded : payload < 2 ^ width) :
    f.decode (f.ofPayload negative width payload) =
      .nan negative (payload * 2 ^ f.fractionBits / 2 ^ width ||| f.quietBit) := by
  have kept : payload * 2 ^ f.fractionBits / 2 ^ width < 2 ^ f.fractionBits := by
    rw [Nat.div_lt_iff_lt_mul (Nat.two_pow_pos _), Nat.mul_comm]
    exact Nat.mul_lt_mul_of_pos_left bounded (Nat.two_pow_pos _)
  have quiet : f.quietBit < 2 ^ f.fractionBits := Nat.pow_lt_pow_right (by decide) (by omega)
  have positive : 0 < f.quietBit := Nat.two_pow_pos _
  have least : f.quietBit ≤ payload * 2 ^ f.fractionBits / 2 ^ width ||| f.quietBit :=
    Nat.right_le_or
  have special := decode_special f negative (Nat.or_lt_two_pow kept quiet)
  rw [if_neg (by omega)] at special
  exact special

theorem or_quietBit {payload bit : Nat} (low : 2 ^ bit ≤ payload) (high : payload < 2 ^ (bit + 1)) :
    payload ||| 2 ^ bit = payload := by
  apply Nat.eq_of_testBit_eq
  intro i
  rw [Nat.testBit_or, Nat.testBit_two_pow]
  by_cases same : bit = i
  · subst same
    rw [Nat.testBit_of_two_pow_le_and_two_pow_add_one_gt low high, Bool.true_or]
  · rw [decide_eq_false same, Bool.or_false]

def Quiet (n : Nat) : Prop :=
  n < 2 ^ 32 ∧ ∀ negative payload, single.decode n = .nan negative payload → 2 ^ 22 ≤ payload

theorem signBit_single_le (negative : Bool) : single.signBit negative ≤ 2 ^ 31 := by
  cases negative <;> decide

theorem signBit_double_le (negative : Bool) : double.signBit negative ≤ 2 ^ 63 := by
  cases negative <;> decide

theorem quiet_ordinary (negative : Bool) {y : Nat} (top : y ≤ single.infinity) :
    Quiet (single.signBit negative + y) := by
  have inside : y ≤ 255 * 2 ^ 23 := top
  have sign := signBit_single_le negative
  refine ⟨by omega, fun sign payload nan => ?_⟩
  exact absurd nan (decode_ne_nan single top negative sign payload)

theorem quiet_convert (bits : Nat) : Quiet (double.convert single bits) := by
  unfold convert
  split
  · rename_i negative payload nan
    have width := payload_lt_of_decode nan
    have small : payload < 2 ^ 52 := width
    have sign := signBit_single_le negative
    have infinity : single.infinity = 255 * 2 ^ 23 := rfl
    constructor
    · have bounded : payload * 2 ^ 23 / 2 ^ 52 ||| 2 ^ 22 < 2 ^ 23 :=
        Nat.or_lt_two_pow (by omega) (by decide)
      show single.signBit negative + single.infinity + (payload * 2 ^ 23 / 2 ^ 52 ||| 2 ^ 22) < _
      omega
    · intro sign kept same
      rw [decode_ofPayload (f := single) (by decide) negative width] at same
      cases same
      exact Nat.right_le_or
  · rename_i negative _
    exact quiet_ordinary negative (Nat.le_refl _)
  · obtain ⟨y, top, same⟩ := nearestScaled_le single _ _ _
    rw [same]
    exact quiet_ordinary _ top

theorem convert_nan {n payload : Nat} {negative : Bool} (bounded : n < 2 ^ 32)
    (nan : single.decode n = .nan negative payload) (quiet : 2 ^ 22 ≤ payload) :
    single.convert double n < 2 ^ 64 ∧ double.convert single (single.convert double n) = n := by
  have small : payload < 2 ^ 23 := payload_lt_of_decode nan
  have widened : payload * 2 ^ 52 / 2 ^ 23 ||| 2 ^ 51 = payload * 2 ^ 29 := by
    rw [show payload * 2 ^ 52 / 2 ^ 23 = payload * 2 ^ 29 by omega]
    exact or_quietBit (by omega) (by omega)
  have narrowed : payload * 2 ^ 29 * 2 ^ 23 / 2 ^ 52 ||| 2 ^ 22 = payload := by
    rw [show payload * 2 ^ 29 * 2 ^ 23 / 2 ^ 52 = payload by omega]
    exact or_quietBit quiet small
  have wide : single.convert double n = double.ofPayload negative 23 payload := by
    rw [convert, nan]
    rfl
  have decoded : double.decode (double.ofPayload negative 23 payload) =
      .nan negative (payload * 2 ^ 29) := by
    rw [← widened]
    exact decode_ofPayload (by decide) negative small
  have back : single.ofPayload negative 52 (payload * 2 ^ 29) = n := by
    have fields : n = single.signBit negative + single.infinity + payload := by
      obtain ⟨sign, x, r, exponent, fraction, rfl⟩ := single.exists_fields bounded
      rw [decode_fields single sign exponent fraction] at nan
      split at nan
      · rename_i greatest
        split at nan <;> cases nan
        rw [greatest, Nat.add_assoc]
        rfl
      · split at nan <;> cases nan
    rw [fields]
    conv_rhs => rw [← narrowed]
    rfl
  have sign := signBit_double_le negative
  have infinity : double.infinity = 2047 * 2 ^ 52 := rfl
  rw [wide]
  refine ⟨?_, ?_⟩
  · show double.signBit negative + double.infinity + (payload * 2 ^ 52 / 2 ^ 23 ||| 2 ^ 51) < _
    omega
  · rw [convert, decoded]
    exact back

theorem convert_convert {n : Nat} (quiet : Quiet n) :
    single.convert double n < 2 ^ 64 ∧ double.convert single (single.convert double n) = n := by
  obtain ⟨bounded, quiet⟩ := quiet
  have infinity : double.infinity = 2047 * 2 ^ 52 := rfl
  cases decoded : single.decode n with
  | nan negative payload => exact convert_nan bounded decoded (quiet negative payload decoded)
  | infinite negative =>
    have sign := signBit_double_le negative
    have fields : n = single.signBit negative + single.infinity := by
      obtain ⟨sign, x, r, exponent, fraction, rfl⟩ := single.exists_fields bounded
      rw [decode_fields single sign exponent fraction] at decoded
      split at decoded
      · rename_i greatest
        split at decoded <;> cases decoded
        rename_i none
        rw [greatest, none]
        rfl
      · split at decoded <;> cases decoded
    have wide : single.convert double n = double.signBit negative + double.infinity := by
      rw [convert, decoded]
    have back : double.decode (double.signBit negative + double.infinity) = .infinite negative :=
      decode_special double negative (r := 0) (by decide)
    rw [wide]
    refine ⟨by omega, ?_⟩
    rw [convert, back, fields]
  | finite negative m e =>
    have sign := signBit_double_le negative
    obtain ⟨holds, -, inside⟩ := holds_of_decode bounded decoded
    have wide : single.convert double n = double.nearestScaled negative m e := by
      rw [convert, decoded]
    obtain ⟨y, top, same⟩ := nearestScaled_le double negative m e
    refine ⟨by omega, ?_⟩
    suffices ∃ m' e', double.decode (double.nearestScaled negative m e) = .finite negative m' e' ∧
        (m' : ℚ) * 2 ^ e' = m * 2 ^ e by
      obtain ⟨m', e', back, value⟩ := this
      rw [wide, convert, back]
      exact nearestScaled_of_decode bounded decoded value
    by_cases given : 0 < m
    · obtain ⟨m', e', wider, given', below, value⟩ := exists_double holds given inside
      refine ⟨m', e', ?_, value⟩
      rw [nearestScaled_exact wider given' negative value.symm,
        Nat.min_eq_left (Nat.le_of_lt below)]
      exact decode_pattern wider below negative
    · have zero : m = 0 := Nat.eq_zero_of_not_pos given
      refine ⟨0, double.minExponent, ?_, by simp [zero]⟩
      rw [zero, nearestScaled_zero]
      cases negative <;> rfl

end RecordCodec.Ieee.Format

namespace RecordCodec.FloatField

theorem narrow_lt (wide : Bool) (bits : UInt64) :
    narrow wide bits < Bytes.capacity (width wide) := by
  cases wide with
  | false => exact (Ieee.Format.quiet_convert _).1
  | true => exact bits.toNat_lt

theorem narrow_widen (wide : Bool) (bits : UInt64) :
    narrow wide (widen wide (narrow wide bits)) = narrow wide bits := by
  cases wide with
  | false =>
    obtain ⟨bounded, same⟩ := Ieee.Format.convert_convert (Ieee.Format.quiet_convert bits.toNat)
    have kept : (widen false (narrow false bits)).toNat =
        Ieee.single.convert Ieee.double (narrow false bits) :=
      Nat.mod_eq_of_lt bounded
    rw [narrow, kept]
    exact same
  | true => simp [narrow, widen]

end RecordCodec.FloatField
