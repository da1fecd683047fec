import RecordCodec.Proofs.Calendar.Days
import RecordCodec.Proofs.Calendar.Grammar

/-!
The dates that printed day numbers name. A number is printed with zeros in front, which do not
change what it denotes; the slashes separate the parts of a date, so a text names at most one date;
and consecutive day numbers name consecutive dates.
-/
namespace RecordCodec.Calendar

open Text (isDigit readNat? readNat?_eq_some readNat?_padZeros readInt? ofNat padZeros ofIntPadded)

/-! ### Numbers filled up with zeros -/

/-- The decimal text of `n`, filled up with zeros in front to `width` digits and no further. -/
def IsPadded (width n : Nat) (s : List Char) : Prop :=
  readNat? s = some n ∧ (s.length = width ∨ width < s.length ∧ s.head? ≠ some '0')

theorem ofNat_head {n : Nat} (pos : 0 < n) : (ofNat n).head? ≠ some '0' := by
  induction n using Nat.strongRecOn with
  | ind n ih =>
    unfold ofNat at *
    by_cases small : n < 10
    · rw [Nat.toDigits_of_lt_base small]
      have digit : ∀ k < 10, 0 < k → k.digitChar ≠ '0' := by decide
      simpa using digit n small pos
    · -- The first digit is that of `n / 10`.
      rw [Nat.toDigits_of_base_le (by omega) (by omega)]
      have front := ih (n / 10) (by omega) (by omega)
      obtain ⟨c, cs, text⟩ := List.exists_cons_of_ne_nil
        (show Nat.toDigits 10 (n / 10) ≠ [] by simp)
      rw [text] at front ⊢
      exact front

theorem length_ofNat_le {n width : Nat} (wide : 0 < width) :
    (ofNat n).length ≤ width ↔ n < 10 ^ width :=
  Nat.length_toDigits_le_iff (by decide) wide

theorem ofIntPadded_natCast (width n : Nat) :
    ofIntPadded width n = padZeros width (ofNat n) := by
  simp [ofIntPadded]

theorem ofIntPadded_isPadded {width : Nat} (wide : 0 < width) (n : Nat) :
    IsPadded width n (ofIntPadded width n) := by
  rw [ofIntPadded_natCast]
  refine ⟨readNat?_padZeros (Text.readNat?_ofNat n) width, ?_⟩
  by_cases short : (ofNat n).length ≤ width
  · left
    simp [padZeros, short]
  · right
    have pos : 0 < n := Nat.lt_of_lt_of_le (Nat.pow_pos (by decide))
      (Nat.le_of_not_lt (mt (length_ofNat_le wide).mpr short))
    have text : padZeros width (ofNat n) = ofNat n := by
      simp [padZeros, Nat.sub_eq_zero_of_le (Nat.le_of_not_le short)]
    rw [text]
    exact ⟨Nat.lt_of_not_le short, ofNat_head pos⟩

theorem ofIntPadded_isPair {n : Nat} (small : n < 100) : IsPair (ofIntPadded 2 n) n := by
  rw [ofIntPadded_natCast]
  refine ⟨?_, readNat?_padZeros (Text.readNat?_ofNat n) 2⟩
  have short : (ofNat n).length ≤ 2 := (length_ofNat_le (by decide)).mpr small
  simp [padZeros, short]

theorem readInt?_of_readNat? {s : List Char} {n : Nat} (denotes : readNat? s = some n) :
    readInt? s = some n := by
  obtain ⟨-, digits, -⟩ := readNat?_eq_some.mp denotes
  unfold readInt?
  split
  · exact absurd (List.all_eq_true.mp digits '-' (.head _)) (by decide)
  · exact absurd (List.all_eq_true.mp digits '+' (.head _)) (by decide)
  · rw [denotes]
    rfl

theorem readInt?_ofIntPadded (width : Nat) (v : Int) : readInt? (ofIntPadded width v) = some v := by
  have denotes := Text.readNat?_ofNat v.natAbs
  unfold ofIntPadded
  split
  · rw [readInt?, readNat?_padZeros denotes]
    exact congrArg some (show -(v.natAbs : Int) = v by omega)
  · rw [readInt?_of_readNat? (readNat?_padZeros denotes width)]
    exact congrArg some (show (v.natAbs : Int) = v by omega)

/-! ### The date that a text names -/

def Names (s : List Char) (d : Date) : Prop :=
  ∃ year month day, s = year ++ '/' :: (month ++ '/' :: day) ∧ readInt? year = some d.year ∧
    readNat? month = some d.month ∧ readNat? day = some d.day

theorem notMem_of_readNat? {s : List Char} {n : Nat} {c : Char} (denotes : readNat? s = some n)
    (other : isDigit c = false) : c ∉ s := by
  obtain ⟨-, digits, -⟩ := readNat?_eq_some.mp denotes
  intro member
  rw [List.all_eq_true.mp digits c member] at other
  cases other

theorem notMem_of_readInt? {s : List Char} {v : Int} {c : Char} (denotes : readInt? s = some v)
    (other : isDigit c = false) (noMinus : c ≠ '-') (noPlus : c ≠ '+') : c ∉ s := by
  unfold readInt? at denotes
  split at denotes
  all_goals
    obtain ⟨v, lifted, -⟩ := Option.map_eq_some_iff.mp denotes
    obtain ⟨n, digits, -⟩ := Option.bind_eq_some_iff.mp lifted
    have := notMem_of_readNat? digits other
    simp_all

theorem append_separator_inj {c : Char} {a b s t : List Char} (noA : c ∉ a) (noB : c ∉ b)
    (same : a ++ c :: s = b ++ c :: t) : a = b ∧ s = t := by
  induction a generalizing b with
  | nil =>
    cases b with
    | nil => simpa using same
    | cons d b =>
      obtain ⟨rfl, -⟩ : c = d ∧ _ := by simpa using same
      exact absurd (List.mem_cons_self ..) noB
  | cons d a ih =>
    cases b with
    | nil =>
      obtain ⟨rfl, -⟩ : d = c ∧ _ := by simpa using same
      exact absurd (List.mem_cons_self ..) noA
    | cons e b =>
      simp only [List.cons_append, List.cons.injEq] at same
      have rest := ih (fun h => noA (.tail _ h)) (fun h => noB (.tail _ h)) same.2
      exact ⟨by rw [same.1, rest.1], rest.2⟩

theorem Names.unique {s : List Char} {d e : Date} (names : Names s d) (other : Names s e) :
    e = d := by
  obtain ⟨year, month, day, rfl, isYear, isMonth, isDay⟩ := names
  obtain ⟨year', month', day', same, isYear', isMonth', isDay'⟩ := other
  -- Neither a year nor a month has a slash in it, so both texts are cut at the same places.
  have slash : isDigit '/' = false := by decide
  obtain ⟨rfl, later⟩ := append_separator_inj
    (notMem_of_readInt? isYear slash (by decide) (by decide))
    (notMem_of_readInt? isYear' slash (by decide) (by decide)) same
  obtain ⟨rfl, rfl⟩ := append_separator_inj (notMem_of_readNat? isMonth slash)
    (notMem_of_readNat? isMonth' slash) later
  have year : e.year = d.year := Option.some.inj (isYear'.symm.trans isYear)
  have month : e.month = d.month := Option.some.inj (isMonth'.symm.trans isMonth)
  have day : e.day = d.day := Option.some.inj (isDay'.symm.trans isDay)
  cases d
  cases e
  simp_all

theorem Date.text_names (d : Date) : Names d.text d := by
  refine ⟨ofIntPadded 4 d.year, ofIntPadded 2 d.month, ofIntPadded 2 d.day, ?_,
    readInt?_ofIntPadded 4 d.year, ?_, ?_⟩
  · simp [Date.text]
  · exact (ofIntPadded_isPadded (by decide) d.month).1
  · exact (ofIntPadded_isPadded (by decide) d.day).1

theorem names_showDate {n : Int} {d : Date} : Names (showDate n) d ↔ d = ofDayNumber n :=
  ⟨fun names => (ofDayNumber n).text_names.unique names, fun same => same ▸ d.text_names⟩

/-- Every day number is printed as a valid date, and the number behind it as the day that follows in
the calendar; day 0 is the second of January of the year 0. -/
theorem showDate_follows_calendar (n : Int) :
    (∃ d : Date, d.isValid = true ∧ (∀ e, Names (showDate n) e ↔ e = d) ∧
      ∀ e, Names (showDate (n + 1)) e ↔ e = d.next) ∧
    showDate 0 = "0000/01/02".toList := by
  refine ⟨⟨ofDayNumber n, (ofDayNumber_spec n).1, fun _ => names_showDate, fun e => ?_⟩,
    by decide⟩
  rw [← ofDayNumber_succ]
  exact names_showDate

end RecordCodec.Calendar
