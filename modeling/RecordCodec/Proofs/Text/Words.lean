import RecordCodec.Text.Blank
import RecordCodec.Text.Number

/-!
Words, blanks and decimal numbers in texts. A blank between two texts separates their words, so
collapsing keeps the words and forgets how much white space stood between them.
-/
namespace RecordCodec.Text

def NoBlank (s : List Char) : Prop :=
  ∀ c ∈ s, isBlank c = false

instance (s : List Char) : Decidable (NoBlank s) :=
  List.decidableBAll (fun c => isBlank c = false) s

theorem noBlank_nil : NoBlank [] := fun _ hc => nomatch hc

theorem NoBlank.append {s t : List Char} (hs : NoBlank s) (ht : NoBlank t) :
    NoBlank (s ++ t) := by
  intro c hc
  rcases List.mem_append.mp hc with h | h
  · exact hs c h
  · exact ht c h

theorem NoBlank.cons {c : Char} {s : List Char} (hc : isBlank c = false) (hs : NoBlank s) :
    NoBlank (c :: s) := by
  intro d hd
  rcases List.mem_cons.mp hd with rfl | h
  · exact hc
  · exact hs d h

theorem wordsAfter_noBlank {s : List Char} (hs : NoBlank s) (word rest : List Char) :
    wordsAfter word (s ++ rest) = wordsAfter (s.reverse ++ word) rest := by
  induction s generalizing word with
  | nil => rfl
  | cons c s ih =>
    have hc : isBlank c = false := hs c (List.mem_cons_self ..)
    have tail : NoBlank s := fun d hd => hs d (List.mem_cons_of_mem _ hd)
    simp only [List.cons_append, wordsAfter, hc, Bool.false_eq_true, if_false, ih tail,
      List.reverse_cons, List.append_assoc, List.nil_append]

theorem wordsAfter_append_blank (a rest word : List Char) {b : Char} (hb : isBlank b = true) :
    wordsAfter word (a ++ b :: rest) = wordsAfter word a ++ words rest := by
  induction a generalizing word with
  | nil => by_cases empty : word.isEmpty = true <;> simp [wordsAfter, words, hb, empty]
  | cons c a ih =>
    by_cases hc : isBlank c = true
    · by_cases empty : word.isEmpty = true <;> simp [wordsAfter, hc, empty, ih]
    · simp [wordsAfter, hc, ih]

theorem words_append_blank (a rest : List Char) {b : Char} (hb : isBlank b = true) :
    words (a ++ b :: rest) = words a ++ words rest :=
  wordsAfter_append_blank a rest [] hb

theorem words_of_noBlank {s : List Char} (hs : NoBlank s) (given : s ≠ []) : words s = [s] := by
  have h := wordsAfter_noBlank hs [] []
  simp only [List.append_nil] at h
  rw [words, h]
  simp [wordsAfter, given]

theorem words_blanks {blanks : List Char} (hb : ∀ b ∈ blanks, isBlank b = true)
    (rest : List Char) : words (blanks ++ rest) = words rest := by
  induction blanks with
  | nil => rfl
  | cons b blanks ih =>
    have head : isBlank b = true := hb b (List.mem_cons_self ..)
    have tail : ∀ c ∈ blanks, isBlank c = true := fun c hc => hb c (List.mem_cons_of_mem _ hc)
    rw [List.cons_append, ← List.nil_append (b :: (blanks ++ rest)), words_append_blank _ _ head,
      ih tail]
    rfl

theorem words_append_blanks (a rest : List Char) {blanks : List Char} (given : blanks ≠ [])
    (hb : ∀ b ∈ blanks, isBlank b = true) :
    words (a ++ (blanks ++ rest)) = words a ++ words rest := by
  cases blanks with
  | nil => exact absurd rfl given
  | cons b blanks =>
    have tail : ∀ c ∈ blanks, isBlank c = true := fun c hc => hb c (List.mem_cons_of_mem _ hc)
    rw [List.cons_append, words_append_blank _ _ (hb b (List.mem_cons_self ..)),
      words_blanks tail]

theorem join_append (separator : List Char) {as bs : List (List Char)} (ha : as ≠ [])
    (hb : bs ≠ []) :
    join separator (as ++ bs) = join separator as ++ separator ++ join separator bs := by
  induction as with
  | nil => exact absurd rfl ha
  | cons a as ih =>
    cases as with
    | nil =>
      cases bs with
      | nil => exact absurd rfl hb
      | cons b bs => simp [join]
    | cons a' as =>
      have h := ih (by simp)
      simp only [List.cons_append, join, List.append_assoc] at h ⊢
      rw [h]

theorem wordsAfter_ne_nil {s : List Char} (word : List Char)
    (h : word ≠ [] ∨ ∃ c ∈ s, isBlank c = false) : wordsAfter word s ≠ [] := by
  induction s generalizing word with
  | nil =>
    rcases h with given | ⟨c, hc, -⟩
    · simp [wordsAfter, given]
    · cases hc
  | cons c s ih =>
    by_cases hc : isBlank c = true
    · cases word with
      | nil =>
        rcases h with given | ⟨d, hd, notBlank⟩
        · exact absurd rfl given
        · rcases List.mem_cons.mp hd with rfl | later
          · rw [hc] at notBlank
            cases notBlank
          · simpa [wordsAfter, hc] using ih [] (.inr ⟨d, later, notBlank⟩)
      | cons d word => simp [wordsAfter, hc]
    · simpa [wordsAfter, hc] using ih (c :: word) (.inl (by simp))

def HasWord (s : List Char) : Prop :=
  ∃ c ∈ s, isBlank c = false

theorem HasWord.append {s : List Char} (h : HasWord s) (t : List Char) : HasWord (s ++ t) := by
  obtain ⟨c, hc, notBlank⟩ := h
  exact ⟨c, List.mem_append_left t hc, notBlank⟩

theorem NoBlank.hasWord {s : List Char} (hs : NoBlank s) (given : s ≠ []) : HasWord s := by
  obtain ⟨c, hc⟩ := List.exists_mem_of_ne_nil s given
  exact ⟨c, hc, hs c hc⟩

theorem words_ne_nil {s : List Char} (h : HasWord s) : words s ≠ [] :=
  wordsAfter_ne_nil [] (.inr h)

theorem collapse_append_blanks (a rest : List Char) {blanks : List Char} (given : blanks ≠ [])
    (hb : ∀ b ∈ blanks, isBlank b = true) (ha : HasWord a) (hrest : HasWord rest) :
    collapse (a ++ (blanks ++ rest)) = collapse a ++ ' ' :: collapse rest := by
  rw [collapse, words_append_blanks a rest given hb,
    join_append [' '] (words_ne_nil ha) (words_ne_nil hrest)]
  simp [collapse]

theorem collapse_of_noBlank {s : List Char} (hs : NoBlank s) : collapse s = s := by
  cases s with
  | nil => rfl
  | cons c s => rw [collapse, words_of_noBlank hs (by simp)]; rfl

theorem noBlank_of_mem_words {s w : List Char} (hw : w ∈ words s) : w ≠ [] ∧ NoBlank w := by
  suffices general : ∀ (s word : List Char), NoBlank word → ∀ w ∈ wordsAfter word s,
      w ≠ [] ∧ NoBlank w from general s [] (by simp [NoBlank]) w hw
  intro s
  induction s with
  | nil =>
    intro word hword w hw
    cases word with
    | nil => simp [wordsAfter] at hw
    | cons c word =>
      have same : w = (c :: word).reverse := by simpa [wordsAfter] using hw
      subst same
      exact ⟨by simp, fun d hd => hword d (List.mem_reverse.mp hd)⟩
  | cons c s ih =>
    intro word hword w hw
    by_cases hc : isBlank c = true
    · cases word with
      | nil =>
        exact ih [] hword w (by simpa [wordsAfter, hc] using hw)
      | cons d word =>
        have split : w = (d :: word).reverse ∨ w ∈ wordsAfter [] s := by
          simpa [wordsAfter, hc] using hw
        rcases split with rfl | later
        · exact ⟨by simp, fun e he => hword e (List.mem_reverse.mp he)⟩
        · exact ih [] (by simp [NoBlank]) w later
    · have hc' : isBlank c = false := by simpa using hc
      exact ih (c :: word) (hword.cons hc') w (by simpa [wordsAfter, hc'] using hw)

theorem words_join {ws : List (List Char)} (hws : ∀ w ∈ ws, w ≠ [] ∧ NoBlank w) :
    words (join [' '] ws) = ws := by
  induction ws with
  | nil => rfl
  | cons w ws ih =>
    have head := hws w (List.mem_cons_self ..)
    have tail : ∀ v ∈ ws, v ≠ [] ∧ NoBlank v := fun v hv => hws v (List.mem_cons_of_mem _ hv)
    cases ws with
    | nil => exact words_of_noBlank head.2 head.1
    | cons v ws =>
      have space : isBlank ' ' = true := by decide
      have h : join [' '] (w :: v :: ws) = w ++ ' ' :: join [' '] (v :: ws) := by simp [join]
      rw [h, words_append_blank _ _ space, words_of_noBlank head.2 head.1, ih tail]
      rfl

theorem collapse_append_noBlank {s t : List Char} (hs : collapse s = s) (given : s ≠ [])
    (ht : NoBlank t) : collapse (s ++ t) = s ++ t := by
  have text : join [' '] (words s) = s := hs
  rcases List.eq_nil_or_concat (words s) with none | ⟨ws, w, some⟩
  · rw [none] at text
    exact absurd text.symm given
  · have member : ∀ v ∈ ws ++ [w], v ≠ [] ∧ NoBlank v := by
      intro v hv
      rw [← List.concat_eq_append, ← some] at hv
      exact noBlank_of_mem_words hv
    have longer : s ++ t = join [' '] (ws ++ [w ++ t]) := by
      rw [← text, some, List.concat_eq_append]
      cases ws with
      | nil => rfl
      | cons v ws =>
        rw [join_append _ (by simp) (by simp), join_append _ (by simp) (by simp)]
        simp [join]
    have last := member w (by simp)
    rw [longer, collapse, words_join]
    intro v hv
    rcases List.mem_append.mp hv with before | last'
    · exact member v (List.mem_append_left _ before)
    · cases List.mem_singleton.mp last'
      exact ⟨by simp [last.1], last.2.append ht⟩

theorem trimStart_of_head {s : List Char} (h : ∀ c, s.head? = some c → isBlank c = false) :
    trimStart s = s := by
  cases s with
  | nil => rfl
  | cons c s => exact List.dropWhile_cons_of_neg (by simp [h c rfl])

theorem trim_of_ends {s : List Char} (first : ∀ c, s.head? = some c → isBlank c = false)
    (last : ∀ c, s.getLast? = some c → isBlank c = false) : trim s = s := by
  have ends : ∀ c, s.reverse.head? = some c → isBlank c = false := by
    intro c hc
    rw [List.head?_reverse] at hc
    exact last c hc
  have h : trimStart s.reverse = s.reverse := trimStart_of_head ends
  rw [trim, trimStart_of_head first, trimEnd]
  rw [trimStart] at h
  rw [h, List.reverse_reverse]

theorem trim_of_noBlank {s : List Char} (hs : NoBlank s) : trim s = s :=
  trim_of_ends (fun c hc => hs c (List.mem_of_mem_head? hc))
    (fun c hc => hs c (List.mem_of_getLast? hc))

theorem join_ends {ws : List (List Char)} (hws : ∀ w ∈ ws, w ≠ [] ∧ NoBlank w) :
    (∀ c, (join [' '] ws).head? = some c → isBlank c = false) ∧
      ∀ c, (join [' '] ws).getLast? = some c → isBlank c = false := by
  induction ws with
  | nil => simp [join]
  | cons w ws ih =>
    obtain ⟨given, noBlank⟩ := hws w (List.mem_cons_self ..)
    have later := ih fun v hv => hws v (List.mem_cons_of_mem _ hv)
    cases ws with
    | nil =>
      exact ⟨fun c hc => noBlank c (List.mem_of_mem_head? hc),
        fun c hc => noBlank c (List.mem_of_getLast? hc)⟩
    | cons v ws =>
      have nextGiven := (hws v (by simp)).1
      have text : join [' '] (w :: v :: ws) = w ++ (' ' :: join [' '] (v :: ws)) := by simp [join]
      have more : join [' '] (v :: ws) ≠ [] := by
        cases ws <;> simp [join, nextGiven]
      obtain ⟨d, w', rfl⟩ := List.exists_cons_of_ne_nil given
      have hlast := List.getLast?_eq_some_getLast more
      refine ⟨fun c hc => ?_, fun c hc => ?_⟩
      · have same : d = c := by simpa [text] using hc
        exact noBlank c (same ▸ List.mem_cons_self ..)
      · have same : (join [' '] (v :: ws)).getLast more = c := by
          simpa [text, List.getLast?_append, List.getLast?_cons, hlast] using hc
        exact later.2 c (same ▸ hlast)

theorem trim_collapse (s : List Char) : trim (collapse s) = collapse s := by
  have ends := join_ends fun w (hw : w ∈ words s) => noBlank_of_mem_words hw
  exact trim_of_ends ends.1 ends.2

theorem isDigit_eq (c : Char) : isDigit c = c.isDigit := by
  rw [Bool.eq_iff_iff]
  simp only [isDigit, Char.isDigit, Bool.and_eq_true, decide_eq_true_eq, ge_iff_le,
    UInt32.le_iff_toNat_le]
  exact Iff.rfl

theorem readNat?_eq_some {s : List Char} {n : Nat} :
    readNat? s = some n ↔ s ≠ [] ∧ s.all isDigit = true ∧ digitsFrom 0 s = n := by
  unfold readNat?
  split
  · rename_i digits
    simp_all
  · rename_i other
    refine ⟨nofun, ?_⟩
    rintro ⟨given, digits, -⟩
    simp_all

theorem readNat?_padZeros {s : List Char} {n : Nat} (denotes : readNat? s = some n) (width : Nat) :
    readNat? (padZeros width s) = some n := by
  obtain ⟨given, digits, value⟩ := readNat?_eq_some.mp denotes
  refine readNat?_eq_some.mpr ⟨by simp [padZeros, given], ?_, ?_⟩
  · have zero : isDigit '0' = true := by decide
    simp [padZeros, digits, zero]
  · unfold padZeros
    induction width - s.length with
    | zero => exact value
    | succ k ih => exact ih

theorem isDigit_of_mem_ofNat {n : Nat} {c : Char} (hc : c ∈ ofNat n) : isDigit c = true := by
  rw [isDigit_eq]
  exact Nat.isDigit_of_mem_toDigits (by omega) (by omega) hc

theorem isBlank_of_isDigit {c : Char} (hc : isDigit c = true) : isBlank c = false := by
  simp only [isDigit, Bool.and_eq_true, decide_eq_true_eq] at hc
  simp only [isBlank, Bool.or_eq_false_iff, Bool.and_eq_false_iff, decide_eq_false_iff_not,
    beq_eq_false_iff_ne]
  omega

theorem noBlank_ofNat (n : Nat) : NoBlank (ofNat n) :=
  fun _ hc => isBlank_of_isDigit (isDigit_of_mem_ofNat hc)

theorem readNat?_ofNat (n : Nat) : readNat? (ofNat n) = some n := by
  have given : (ofNat n).isEmpty = false := by simp [ofNat]
  have digits : (ofNat n).all isDigit = true :=
    List.all_eq_true.mpr fun c hc => isDigit_of_mem_ofNat hc
  have value : digitsFrom 0 (ofNat n) = n := by
    have h : Nat.ofDigitChars 10 (Nat.toDigits 10 n) 0 = n := Nat.ofDigitChars_ten_toDigits
    rw [Nat.ofDigitChars] at h
    simpa [digitsFrom, digitValue, ofNat, Nat.mul_comm] using h
  simp [readNat?, given, digits, value]

theorem ofNat_ne_cons {c : Char} (other : isDigit c = false) (n : Nat) (rest : List Char) :
    ofNat n ≠ c :: rest := by
  intro same
  have digit : isDigit c = true := isDigit_of_mem_ofNat (same ▸ List.mem_cons_self ..)
  exact absurd (digit.symm.trans other) (by decide)

theorem readUnsigned?_ofNat (n : Nat) : readUnsigned? (ofNat n) = some n := by
  unfold readUnsigned?
  split
  · rename_i rest same
    exact absurd same (ofNat_ne_cons (by decide) _ _)
  · exact readNat?_ofNat n

theorem noBlank_ofInt (v : Int) : NoBlank (ofInt v) := by
  unfold ofInt
  split
  · exact (noBlank_ofNat v.natAbs).cons (by decide)
  · exact noBlank_ofNat v.natAbs

theorem readInt?_ofInt (v : Int) : readInt? (ofInt v) = some v := by
  unfold ofInt
  split
  · rw [readInt?, readNat?_ofNat]
    exact congrArg some (show -(v.natAbs : Int) = v by omega)
  · unfold readInt?
    split
    · rename_i rest same
      exact absurd same (ofNat_ne_cons (by decide) _ _)
    · rename_i rest same
      exact absurd same (ofNat_ne_cons (by decide) _ _)
    · rw [readNat?_ofNat]
      exact congrArg some (show (v.natAbs : Int) = v by omega)

theorem afterPlus_ofInt (v : Int) : afterLead? ['+'] (ofInt v) = none := by
  refine if_neg fun plus => ?_
  obtain ⟨rest, same⟩ := List.isPrefixOf_iff_prefix.mp plus
  unfold ofInt at same
  split at same
  · cases same
  · exact ofNat_ne_cons (by decide) _ _ same.symm

end RecordCodec.Text
