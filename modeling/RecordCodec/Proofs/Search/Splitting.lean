import RecordCodec.Proofs.Text.Words
import RecordCodec.Search.Compile

/-!
Splitting a text at a keyword. A part in which no keyword can start, whatever stands behind it, is
passed over whole; so a text that was joined from such parts splits into them again.
-/
namespace RecordCodec

namespace Text

theorem toNat_ofNat_ascii {n : Nat} (h : n < 128) : (Char.ofNat n).toNat = n := by
  have valid : n.isValidChar := .inl (by omega)
  rw [Char.ofNat, dif_pos valid]
  rfl

theorem toNat_upperAscii (c : Char) :
    (upperAscii c).toNat = c.toNat ∨
      97 ≤ c.toNat ∧ c.toNat ≤ 122 ∧ (upperAscii c).toNat = c.toNat - 32 := by
  unfold upperAscii
  split
  · rename_i h
    exact .inr ⟨h.1, h.2, toNat_ofNat_ascii (by omega)⟩
  · exact .inl rfl

theorem eq_space_of_upperAscii {c : Char} (h : upperAscii c = ' ') : c = ' ' := by
  have number : (upperAscii c).toNat = 32 := by rw [h]; rfl
  apply Char.toNat_inj.mp
  rcases toNat_upperAscii c with same | ⟨low, high, lower⟩
  · exact same.symm.trans number
  · omega

theorem upperAscii_of_isBlank {c : Char} (h : isBlank c = true) : upperAscii c = c := by
  rw [upperAscii, if_neg]
  rintro ⟨low, high⟩
  simp only [isBlank, Bool.or_eq_true, Bool.and_eq_true, decide_eq_true_eq, beq_iff_eq] at h
  omega

theorem noBlank_of_upperAscii {word keyword : List Char} (keywordNoBlank : NoBlank keyword)
    (same : word.map upperAscii = keyword) : NoBlank word := by
  intro c hc
  cases blank : isBlank c with
  | false => rfl
  | true =>
    have member : c ∈ keyword := by
      rw [← same]
      exact List.mem_map.mpr ⟨c, hc, upperAscii_of_isBlank blank⟩
    rw [keywordNoBlank c member] at blank
    cases blank

end Text

namespace Comparator

def NoOperator (s : List Char) : Prop :=
  ∀ c ∈ s, isOperatorChar c = false

instance (s : List Char) : Decidable (NoOperator s) :=
  List.decidableBAll (fun c => isOperatorChar c = false) s

theorem toNat_of_isOperatorChar {c : Char} (h : isOperatorChar c = true) :
    c.toNat = 61 ∨ c.toNat = 33 ∨ c.toNat = 60 ∨ c.toNat = 62 := by
  simp only [isOperatorChar, Bool.or_eq_true, beq_iff_eq] at h
  rcases h with ((rfl | rfl) | rfl) | rfl <;> decide

theorem upperAscii_of_isOperatorChar {c : Char} (h : isOperatorChar c = true) :
    Text.upperAscii c = c := by
  have number := toNat_of_isOperatorChar h
  rw [Text.upperAscii, if_neg]
  omega

theorem isBlank_of_isOperatorChar {c : Char} (h : isOperatorChar c = true) :
    Text.isBlank c = false := by
  simp only [isOperatorChar, Bool.or_eq_true, beq_iff_eq] at h
  rcases h with ((rfl | rfl) | rfl) | rfl <;> decide

end Comparator

namespace Query

def Matches (keyword s : List Char) : Prop :=
  (s.take keyword.length).map Text.upperAscii = keyword

theorem matches_cons {k c : Char} {ks s : List Char} :
    Matches (k :: ks) (c :: s) ↔ Text.upperAscii c = k ∧ Matches ks s := by
  simp [Matches]

def Quiet (keyword : List Char) : List Char → Prop
  | [] => True
  | c :: s => (∀ rest, ¬Matches keyword (c :: (s ++ rest))) ∧ Quiet keyword s

theorem Quiet.append {keyword s t : List Char} (hs : Quiet keyword s) (ht : Quiet keyword t) :
    Quiet keyword (s ++ t) := by
  induction s with
  | nil => exact ht
  | cons c s ih =>
    refine ⟨fun rest => ?_, ih hs.2⟩
    have h := hs.1 (t ++ rest)
    rw [← List.append_assoc] at h
    exact h

theorem quiet_of_noSpace (ks : List Char) {s : List Char} (hs : ' ' ∉ s) :
    Quiet (' ' :: ks) s := by
  induction s with
  | nil => trivial
  | cons c s ih =>
    refine ⟨fun rest h => hs ?_, ih fun h => hs (List.mem_cons_of_mem _ h)⟩
    rw [Text.eq_space_of_upperAscii (matches_cons.mp h).1]
    exact List.mem_cons_self ..

theorem not_matches_operator {ks s rest : List Char} {o : Char} (hs : ' ' ∉ s)
    (plain : Comparator.NoOperator ks)
    (ho : Comparator.isOperatorChar o = true) : ¬Matches (ks ++ [' ']) (s ++ o :: rest) := by
  intro h
  induction s generalizing ks with
  | nil =>
    cases ks with
    | nil =>
      have space := (matches_cons.mp h).1
      rw [Comparator.upperAscii_of_isOperatorChar ho] at space
      rw [space] at ho
      exact absurd ho (by decide)
    | cons k ks =>
      have letter := (matches_cons.mp h).1
      rw [Comparator.upperAscii_of_isOperatorChar ho] at letter
      rw [letter, plain k (List.mem_cons_self ..)] at ho
      cases ho
  | cons c s ih =>
    have tail : ' ' ∉ s := fun later => hs (List.mem_cons_of_mem _ later)
    cases ks with
    | nil =>
      refine hs ?_
      rw [Text.eq_space_of_upperAscii (matches_cons.mp h).1]
      exact List.mem_cons_self ..
    | cons k ks =>
      exact ih tail (fun k' hk' => plain k' (List.mem_cons_of_mem _ hk')) (matches_cons.mp h).2

theorem matches_before_operator {keyword s rest : List Char} {o : Char}
    (plain : Comparator.NoOperator keyword)
    (ho : Comparator.isOperatorChar o = true) (h : Matches keyword (s ++ o :: rest)) :
    Matches keyword s := by
  induction keyword generalizing s with
  | nil => simp [Matches]
  | cons k keyword ih =>
    cases s with
    | nil =>
      have letter := (matches_cons.mp h).1
      rw [Comparator.upperAscii_of_isOperatorChar ho] at letter
      rw [letter, plain k (List.mem_cons_self ..)] at ho
      cases ho
    | cons c s =>
      have both := matches_cons.mp h
      exact matches_cons.mpr
        ⟨both.1, ih (fun k' hk' => plain k' (List.mem_cons_of_mem _ hk')) both.2⟩

def Lacks (keyword s : List Char) : Prop :=
  ∀ before after, s = before ++ after → ¬Matches keyword after

theorem lacks_of_noSpace (ks : List Char) {s : List Char} (hs : ' ' ∉ s) :
    Lacks (' ' :: ks) s := by
  rintro before after rfl h
  cases after with
  | nil => simp [Matches] at h
  | cons c after =>
    refine hs ?_
    rw [Text.eq_space_of_upperAscii (matches_cons.mp h).1]
    simp

/-- A name that lacks a keyword is quiet in front of an operator and a text without spaces. -/
theorem Lacks.quiet {ks name rest : List Char} {o : Char} (lacks : Lacks (' ' :: ks) name)
    (plain : Comparator.NoOperator (' ' :: ks))
    (ho : Comparator.isOperatorChar o = true) (hrest : ' ' ∉ o :: rest) :
    Quiet (' ' :: ks) (name ++ o :: rest) := by
  induction name with
  | nil => exact quiet_of_noSpace ks hrest
  | cons c name ih =>
    have tail : Lacks (' ' :: ks) name := fun before after split =>
      lacks (c :: before) after (by simp [split])
    refine ⟨fun behind h => ?_, ih tail⟩
    have here : Matches (' ' :: ks) ((c :: name) ++ o :: (rest ++ behind)) := by simpa using h
    exact lacks [] (c :: name) rfl (matches_before_operator plain ho here)

theorem splitFrom_quiet {keyword part : List Char} (quiet : Quiet keyword part)
    (before rest : List Char) :
    splitFrom keyword 0 before (part ++ rest) =
      splitFrom keyword 0 (part.reverse ++ before) rest := by
  induction part generalizing before with
  | nil => rfl
  | cons c part ih =>
    have here : ¬((c :: (part ++ rest)).take keyword.length).map Text.upperAscii = keyword :=
      quiet.1 rest
    rw [List.cons_append, splitFrom, if_neg here, ih quiet.2]
    simp

theorem splitFrom_skip (keyword before skipped rest : List Char) :
    splitFrom keyword skipped.length before (skipped ++ rest) =
      splitFrom keyword 0 before rest := by
  induction skipped with
  | nil => rfl
  | cons c skipped ih => exact ih

theorem splitFrom_keyword {keyword letters : List Char} (given : keyword ≠ [])
    (same : letters.map Text.upperAscii = keyword) (before rest : List Char) :
    splitFrom keyword 0 before (letters ++ rest) =
      before.reverse :: splitFrom keyword 0 [] rest := by
  cases letters with
  | nil => exact absurd same.symm given
  | cons c letters =>
    have count : keyword.length = letters.length + 1 := by
      rw [← same]
      simp
    have here : ((c :: (letters ++ rest)).take keyword.length).map Text.upperAscii = keyword := by
      rw [count, List.take_succ_cons, List.take_left, same]
    rw [List.cons_append, splitFrom, if_pos here, count, Nat.add_sub_cancel, splitFrom_skip]

/-- Parts with keywords between them: the first part, and each further one behind its keyword. -/
def joined (first : List Char) (rest : List (List Char × List Char)) : List Char :=
  first ++ rest.flatMap fun (letters, part) => letters ++ part

@[simp] theorem joined_nil (first : List Char) : joined first [] = first := by
  simp [joined]

theorem joined_cons (first letters part : List Char) (rest : List (List Char × List Char)) :
    joined first ((letters, part) :: rest) = first ++ (letters ++ joined part rest) := by
  simp [joined]

theorem Quiet.joined {keyword first : List Char} {rest : List (List Char × List Char)}
    (head : Quiet keyword first)
    (tail : ∀ x ∈ rest, Quiet keyword (x.1 ++ x.2)) : Quiet keyword (joined first rest) := by
  induction rest generalizing first with
  | nil => simpa using head
  | cons x rest ih =>
    have here := tail x (List.mem_cons_self ..)
    have later := fun y hy => tail y (List.mem_cons_of_mem _ hy)
    have shift : Query.joined first (x :: rest) = Query.joined (first ++ (x.1 ++ x.2)) rest := by
      simp [Query.joined]
    rw [shift]
    exact ih (head.append here) later

theorem split_joined {keyword first : List Char} {rest : List (List Char × List Char)}
    (given : keyword ≠ []) (head : Quiet keyword first)
    (tail : ∀ x ∈ rest, x.1.map Text.upperAscii = keyword ∧ Quiet keyword x.2) :
    split keyword (joined first rest) = Text.trim first :: rest.map fun x => Text.trim x.2 := by
  suffices parts : splitFrom keyword 0 [] (joined first rest) = first :: rest.map Prod.snd by
    simp [split, parts, Function.comp_def]
  induction rest generalizing first with
  | nil =>
    have h := splitFrom_quiet head [] []
    rw [List.append_nil, List.append_nil] at h
    rw [joined_nil, h, splitFrom, List.reverse_reverse]
    rfl
  | cons x rest ih =>
    obtain ⟨letters, part⟩ := x
    have here := tail (letters, part) (List.mem_cons_self ..)
    have later := fun y hy => tail y (List.mem_cons_of_mem _ hy)
    rw [joined_cons, splitFrom_quiet head, splitFrom_keyword given here.1, ih here.2 later]
    simp

end Query

end RecordCodec
