import RecordCodec.Proofs.Search.Splitting
import RecordCodec.Proofs.Search.Written

/-!
Operands and the parts of a predicate. A placeholder stands for its own literal, and an operand
without a placeholder does not depend on the literals of the query.
-/
namespace RecordCodec

namespace Operand

theorem noBlank_placeholder (n : Nat) : Text.NoBlank (Query.placeholder n) := by
  have digits := Text.noBlank_ofNat n
  have close : Text.NoBlank ['}'] := Text.noBlank_nil.cons (by decide)
  exact ((digits.cons (by decide)).cons (by decide)).append close

theorem ofText_placeholder {constants : List (List Char)} {n : Nat} {raw : List Char}
    (h : constants[n]? = some raw) (order : ByteOrder) :
    ofText order constants (Query.placeholder (n + 1)) = .ok (.text (unescape raw)) := by
  have trimmed := Text.trim_of_noBlank (noBlank_placeholder (n + 1))
  have inside : placeholder? (Query.placeholder (n + 1)) = some (Text.ofNat (n + 1)) := by
    simp [Query.placeholder, placeholder?]
  have noBrace : (Text.ofNat (n + 1)).contains '{' = false := by
    rw [List.contains_eq_mem, decide_eq_false_iff_not]
    intro brace
    exact absurd (Text.isDigit_of_mem_ofNat brace) (by decide)
  have found : constant? constants (Text.ofNat (n + 1)) = some raw := by
    simp [constant?, Text.trim_of_noBlank (Text.noBlank_ofNat _), Text.readUnsigned?_ofNat, h]
  have kept : (some (Text.ofNat (n + 1))).filter (fun inside => !inside.contains '{') =
      some (Text.ofNat (n + 1)) := by
    rw [Option.filter_some, noBrace]
    rfl
  simp only [ofText, trimmed, inside, kept, found]

theorem hasPlaceholder_of_noHash {s : List Char} (h : '#' ∉ s) : hasPlaceholder s = false := by
  induction s with
  | nil => rfl
  | cons c s ih =>
    rw [hasPlaceholder.eq_def]
    split
    · rename_i same
      cases same
      exact absurd (List.mem_cons_self ..) h
    · rename_i same
      cases same
      exact ih fun later => h (List.mem_cons_of_mem _ later)
    · rfl

theorem placeholder?_of_noHash {s : List Char} (h : '#' ∉ s) : placeholder? s = none := by
  unfold placeholder?
  split
  · exact absurd (List.mem_cons_self ..) h
  · rfl

theorem run_noHash (order : ByteOrder) (constants : List (List Char)) (before : Nat) {c : Char}
    (h : c ≠ '#') (rest : List Char) :
    run order constants before c rest = run order [] before c rest := by
  simp [run, h]

theorem mixedFrom_cons (order : ByteOrder) (constants : List (List Char)) (before : List UInt8)
    (c : Char) (rest : List Char) :
    mixedFrom order constants before (c :: rest) =
      (run order constants before.length c rest).bind fun (bytes, s) =>
        mixedFrom order constants (before ++ bytes) s := by
  rw [mixedFrom]
  split
  · rename_i fault h
    rw [h]
    rfl
  · rename_i bytes s h
    rw [h]
    rfl

theorem mixedFrom_noHash (order : ByteOrder) (constants : List (List Char)) :
    ∀ (size : Nat) (s : List Char), s.length ≤ size → '#' ∉ s → ∀ before,
      mixedFrom order constants before s = mixedFrom order [] before s := by
  intro size
  induction size with
  | zero =>
    intro s short _ before
    have empty : s = [] := List.length_eq_zero_iff.mp (Nat.le_zero.mp short)
    subst empty
    rw [mixedFrom, mixedFrom]
  | succ size ih =>
    intro s short noHash before
    cases s with
    | nil => rw [mixedFrom, mixedFrom]
    | cons c rest =>
      have head : c ≠ '#' := fun h => noHash (h ▸ List.mem_cons_self ..)
      rw [mixedFrom_cons, mixedFrom_cons, run_noHash order constants _ head]
      cases ran : run order [] before.length c rest with
      | error fault => rfl
      | ok result =>
        obtain ⟨bytes, s⟩ := result
        have suffix := run_suffix ran
        have shorter : s.length ≤ size := by
          have := suffix.length_le
          simp only [List.length_cons] at short
          omega
        exact ih s shorter (fun h => noHash (List.mem_cons_of_mem _ (suffix.mem h))) _

theorem mixed_noHash (order : ByteOrder) (constants : List (List Char)) {s : List Char}
    (h : '#' ∉ s) : mixed order constants s = mixed order [] s := by
  rw [mixed, mixed, mixedFrom_noHash order constants s.length s (Nat.le_refl _) h]

end Operand

namespace Query

/-- A name, a comparator and an operand are told apart by the characters of comparators. -/
theorem predicateParts_text {name operand : List Char} (sign : Written.Sign) (given : name ≠ [])
    (trimmed : Text.trim name = name)
    (plain : Comparator.NoOperator name) {o : Char} {more : List Char} (start : operand = o :: more)
    (noOperator : Comparator.isOperatorChar o = false)
    (operandTrimmed : Text.trim operand = operand) :
    predicateParts (name ++ (sign.text ++ operand)) = .ok (name, sign.comparator, operand) := by
  have signs : ∀ c ∈ sign.text, Comparator.isOperatorChar c = true := by
    rw [← List.all_eq_true]
    cases sign <;> decide
  have first : ∃ s rest, sign.text = s :: rest := by
    cases sign <;> exact ⟨_, _, rfl⟩
  obtain ⟨s, rest, text⟩ := first
  have hs : Comparator.isOperatorChar s = true := signs s (text ▸ List.mem_cons_self ..)
  have before : (name ++ (sign.text ++ operand)).takeWhile
      (fun c => !Comparator.isOperatorChar c) = name := by
    rw [List.takeWhile_append_of_pos fun c hc => by simp [plain c hc], text, List.cons_append,
      List.takeWhile_cons_of_neg (by simp [hs]), List.append_nil]
  have behind : (name ++ (sign.text ++ operand)).dropWhile
      (fun c => !Comparator.isOperatorChar c) = sign.text ++ operand := by
    rw [List.dropWhile_append_of_pos fun c hc => by simp [plain c hc], text, List.cons_append,
      List.dropWhile_cons_of_neg (by simp [hs])]
  have operator : (sign.text ++ operand).takeWhile Comparator.isOperatorChar = sign.text := by
    rw [List.takeWhile_append_of_pos signs, start,
      List.takeWhile_cons_of_neg (by simp [noOperator]), List.append_nil]
  have value : (sign.text ++ operand).dropWhile Comparator.isOperatorChar = operand := by
    rw [List.dropWhile_append_of_pos signs, start,
      List.dropWhile_cons_of_neg (by simp [noOperator])]
  have known : Comparator.ofText? sign.text = some sign.comparator := by
    cases sign <;> rfl
  have present : ¬(sign.text.isEmpty || name.isEmpty || operand.isEmpty) = true := by
    simp [text, given, start]
  simp only [predicateParts, before, behind, operator, value, trimmed, operandTrimmed,
    if_neg present, known]

end Query

theorem SearchTarget.predicate_of_parts [Libraries] (t : SearchTarget) {s field operand : List Char}
    {comparator : Comparator} (h : Query.predicateParts s = .ok (field, comparator, operand)) :
    t.predicate s =
      if Query.isRange operand then
        if comparator = .equal then t.range field operand
        else .error (.invalidComparator (String.ofList s))
      else t.leaf field comparator operand := by
  rw [SearchTarget.predicate, h]
  rfl

end RecordCodec
