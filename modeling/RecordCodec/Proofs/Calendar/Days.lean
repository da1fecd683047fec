import Mathlib.Tactic.IntervalCases
import Mathlib.Tactic.SplitIfs
import RecordCodec.Calendar

/-!
Day numbers against the Gregorian calendar. A year is counted from the first of March, so the days
in front of a year and in front of a month of it are given by floor divisions; what they say of leap
days is proved once (`yearStart_succ`), and what they say of month ends once (`monthStart_succ`).
Everything else follows: consecutive numbers name consecutive days, and the two conversions are
inverse to each other on all integers.
-/
namespace RecordCodec.Calendar

def Date.next (d : Date) : Date :=
  if d.day < daysInMonth d.year d.month then ⟨d.year, d.month, d.day + 1⟩
  else if d.month < 12 then ⟨d.year, d.month + 1, 1⟩
  else ⟨d.year + 1, 1, 1⟩

theorem isLeap_iff {year : Int} :
    isLeap year = true ↔ year % 4 = 0 ∧ year % 100 ≠ 0 ∨ year % 400 = 0 := by
  simp [isLeap]

theorem Date.isValid_iff {d : Date} : d.isValid = true ↔
    1 ≤ d.month ∧ d.month ≤ 12 ∧ 1 ≤ d.day ∧ d.day ≤ daysInMonth d.year d.month := by
  simp [Date.isValid, and_assoc]

theorem daysInMonth_pos (year : Int) (month : Nat) : 0 < daysInMonth year month := by
  unfold daysInMonth
  split_ifs <;> omega

theorem Date.next_isValid {d : Date} (valid : d.isValid = true) : d.next.isValid = true := by
  rw [Date.isValid_iff] at valid ⊢
  have first := daysInMonth_pos d.year (d.month + 1)
  have newYear := daysInMonth_pos (d.year + 1) 1
  unfold Date.next
  split_ifs <;> dsimp only <;> omega

/-! ### Years that start in March -/

def yearStart (year : Int) : Int :=
  146097 * (year / 100) / 4 + 1461 * (year - 100 * (year / 100)) / 4

theorem yearStart_eq (year : Int) :
    yearStart year = 365 * year + year / 4 - year / 100 + year / 400 := by
  have centuries : 146097 * (year / 100) / 4 = 36524 * (year / 100) + year / 400 := by omega
  have years : 1461 * (year - 100 * (year / 100)) / 4 =
      365 * (year - 100 * (year / 100)) + (year / 4 - 25 * (year / 100)) := by omega
  unfold yearStart
  omega

theorem yearStart_mono {y z : Int} (h : y ≤ z) : yearStart y ≤ yearStart z := by
  rw [yearStart_eq, yearStart_eq]
  omega

theorem yearStart_succ (year : Int) :
    yearStart (year + 1) = yearStart year + if isLeap (year + 1) then 366 else 365 := by
  rw [yearStart_eq, yearStart_eq]
  split
  · rename_i leap
    have := isLeap_iff.mp leap
    omega
  · rename_i common
    have := mt isLeap_iff.mpr common
    omega

/-- The year, counted from March, that a day counted from March of the year 0 belongs to. -/
def marchYear (j : Int) : Int :=
  let century := (4 * j + 3) / 146097
  100 * century + (4 * (j - 146097 * century / 4) + 3) / 1461

theorem marchYear_century (j : Int) : marchYear j / 100 = (4 * j + 3) / 146097 := by
  unfold marchYear
  dsimp only
  omega

theorem yearStart_marchYear_le (j : Int) : yearStart (marchYear j) ≤ j := by
  unfold yearStart
  rw [marchYear_century]
  unfold marchYear
  dsimp only
  omega

theorem lt_yearStart_marchYear (j : Int) : j < yearStart (marchYear j + 1) := by
  have century := marchYear_century j
  have year : marchYear j - 100 * (marchYear j / 100) =
      (4 * (j - 146097 * (marchYear j / 100) / 4) + 3) / 1461 := by
    rw [century]
    unfold marchYear
    dsimp only
    omega
  unfold yearStart
  -- Behind the last year of a century, the next year is counted from the next century.
  by_cases last : marchYear j - 100 * (marchYear j / 100) = 99
  · have next : (marchYear j + 1) / 100 = marchYear j / 100 + 1 := by omega
    rw [next]
    omega
  · have same : (marchYear j + 1) / 100 = marchYear j / 100 := by omega
    rw [same]
    omega

theorem marchYear_of {j year : Int} (low : yearStart year ≤ j) (high : j < yearStart (year + 1)) :
    marchYear j = year := by
  have start := yearStart_marchYear_le j
  have stop := lt_yearStart_marchYear j
  rcases Int.lt_trichotomy (marchYear j) year with before | same | behind
  · have := yearStart_mono (show marchYear j + 1 ≤ year by omega)
    omega
  · exact same
  · have := yearStart_mono (show year + 1 ≤ marchYear j by omega)
    omega

/-! ### The conversions in terms of March years -/

def Date.marchYear (d : Date) : Int :=
  if 2 < d.month then d.year else d.year - 1

def Date.marchMonth (d : Date) : Int :=
  if 2 < d.month then d.month - 3 else d.month + 9

theorem dayNumber_eq (d : Date) :
    dayNumber d = yearStart d.marchYear + daysBeforeMonth d.marchMonth + d.day + 58 := by
  unfold dayNumber yearStart Date.marchYear Date.marchMonth epochShift
  dsimp only
  omega

/-- A month of a March year ends where the next one starts; the last month is February. -/
theorem daysInMonth_march {d : Date} (low : 1 ≤ d.month) (high : d.month ≤ 12) :
    (daysInMonth d.year d.month : Int) =
      if d.marchMonth = 11 then if isLeap (d.marchYear + 1) then 29 else 28
      else daysBeforeMonth (d.marchMonth + 1) - daysBeforeMonth d.marchMonth := by
  obtain ⟨year, month, day⟩ := d
  unfold daysInMonth Date.marchMonth Date.marchYear daysBeforeMonth
  dsimp only at *
  interval_cases month
  case «2» => cases leap : isLeap year <;> simp [leap]
  all_goals simp

theorem Date.dayOfYear_range {d : Date} (valid : d.isValid = true) :
    0 ≤ daysBeforeMonth d.marchMonth + d.day - 1 ∧
      daysBeforeMonth d.marchMonth + d.day - 1 <
        if isLeap (d.marchYear + 1) then 366 else 365 := by
  rw [Date.isValid_iff] at valid
  obtain ⟨low, high, first, last⟩ := valid
  have length := daysInMonth_march low high
  unfold Date.marchMonth at *
  unfold daysBeforeMonth at *
  split_ifs at * <;> omega

theorem month_of {e month : Int} (low : daysBeforeMonth month ≤ e)
    (high : e < daysBeforeMonth (month + 1)) : (5 * e + 2) / 153 = month := by
  unfold daysBeforeMonth at *
  omega

theorem ofDayNumber_eq (n : Int) : ofDayNumber n =
    let e := n - 59 - yearStart (marchYear (n - 59))
    let month := (5 * e + 2) / 153
    ⟨marchYear (n - 59) + month / 10, (month + 3 - 12 * (month / 10)).toNat,
      (e - daysBeforeMonth month + 1).toNat⟩ := by
  have century := marchYear_century (n - 59)
  have start : n - 59 - yearStart (marchYear (n - 59)) =
      n - 59 - 146097 * ((4 * (n - 59) + 3) / 146097) / 4 -
        1461 * ((4 * (n - 59 - 146097 * ((4 * (n - 59) + 3) / 146097) / 4) + 3) / 1461) / 4 := by
    unfold yearStart
    rw [century]
    unfold marchYear
    dsimp only
    omega
  rw [start]
  rfl

theorem ofDayNumber_dayNumber {d : Date} (valid : d.isValid = true) :
    ofDayNumber (dayNumber d) = d := by
  have range := d.dayOfYear_range valid
  rw [Date.isValid_iff] at valid
  obtain ⟨low, high, first, last⟩ := valid
  have length := daysInMonth_march low high
  have number := dayNumber_eq d
  have year : marchYear (dayNumber d - 59) = d.marchYear := by
    refine marchYear_of (by omega) ?_
    rw [yearStart_succ]
    omega
  have inYear : dayNumber d - 59 - yearStart (marchYear (dayNumber d - 59)) =
      daysBeforeMonth d.marchMonth + d.day - 1 := by
    rw [year]
    omega
  have month : (5 * (daysBeforeMonth d.marchMonth + d.day - 1) + 2) / 153 = d.marchMonth := by
    refine month_of (by omega) ?_
    -- The month table goes on behind February, which ends with the year.
    by_cases february : d.marchMonth = 11
    · have longest : daysBeforeMonth (11 + 1) = 367 := rfl
      rw [february] at range ⊢
      split_ifs at range <;> omega
    · rw [if_neg february] at length
      omega
  rw [ofDayNumber_eq, inYear]
  dsimp only
  rw [year, month]
  obtain ⟨year, month, day⟩ := d
  unfold Date.marchYear Date.marchMonth daysBeforeMonth
  dsimp only at *
  rw [Date.mk.injEq]
  omega

theorem ofDayNumber_spec (n : Int) :
    (ofDayNumber n).isValid = true ∧ dayNumber (ofDayNumber n) = n := by
  have low := yearStart_marchYear_le (n - 59)
  have high := lt_yearStart_marchYear (n - 59)
  rw [yearStart_succ] at high
  rw [ofDayNumber_eq]
  -- With names for the year, the day of it and the month, what is left is linear in them.
  generalize yearYear : marchYear (n - 59) = year at *
  generalize inYear : n - 59 - yearStart year = e
  dsimp only
  generalize inMonth : (5 * e + 2) / 153 = month
  have before : daysBeforeMonth month ≤ e := by
    unfold daysBeforeMonth
    omega
  have behind : e < daysBeforeMonth (month + 1) := by
    unfold daysBeforeMonth
    omega
  have months : 0 ≤ month ∧ month ≤ 11 := by
    split_ifs at high <;> omega
  generalize same : (⟨year + month / 10, (month + 3 - 12 * (month / 10)).toNat,
    (e - daysBeforeMonth month + 1).toNat⟩ : Date) = d
  have parts : d.marchYear = year ∧ d.marchMonth = month ∧
      (d.day : Int) = e - daysBeforeMonth month + 1 ∧ 1 ≤ d.month ∧ d.month ≤ 12 := by
    rw [← same]
    unfold Date.marchYear Date.marchMonth
    dsimp only
    omega
  obtain ⟨isYear, isMonth, isDay, first, last⟩ := parts
  have length := daysInMonth_march first last
  rw [isYear, isMonth] at length
  constructor
  · rw [Date.isValid_iff]
    refine ⟨first, last, by omega, ?_⟩
    have beforeFebruary : daysBeforeMonth 11 = 337 := rfl
    split_ifs at length high with february leap
    · rw [february] at isDay
      omega
    · rw [february] at isDay
      omega
    · omega
    · omega
  · rw [dayNumber_eq, isYear, isMonth]
    omega

/-- At the end of February the March year ends with it, at the end of any other month the next month
of the same March year starts. -/
theorem Date.next_march {d : Date} (high : d.month ≤ 12)
    (monthEnd : ¬d.day < daysInMonth d.year d.month) :
    d.next.day = 1 ∧
      if d.month = 2 then d.next.marchYear = d.marchYear + 1 ∧ d.next.marchMonth = 0
      else d.next.marchYear = d.marchYear ∧ d.next.marchMonth = d.marchMonth + 1 := by
  obtain ⟨year, month, day⟩ := d
  unfold Date.next Date.marchYear Date.marchMonth
  dsimp only at *
  rw [if_neg monthEnd]
  by_cases lastMonth : month < 12
  · rw [if_pos lastMonth]
    dsimp only
    refine ⟨rfl, ?_⟩
    split <;> omega
  · rw [if_neg lastMonth]
    dsimp only
    refine ⟨rfl, ?_⟩
    split <;> omega

theorem dayNumber_next {d : Date} (valid : d.isValid = true) :
    dayNumber d.next = dayNumber d + 1 := by
  rw [Date.isValid_iff] at valid
  obtain ⟨low, high, first, last⟩ := valid
  by_cases within : d.day < daysInMonth d.year d.month
  · have next : d.next = { d with day := d.day + 1 } := if_pos within
    rw [next, dayNumber_eq, dayNumber_eq]
    change yearStart d.marchYear + daysBeforeMonth d.marchMonth + (d.day + 1 : Nat) + 58 =
      yearStart d.marchYear + daysBeforeMonth d.marchMonth + d.day + 58 + 1
    omega
  · have length := daysInMonth_march low high
    obtain ⟨day, march⟩ := Date.next_march high within
    have year := yearStart_succ d.marchYear
    rw [dayNumber_eq, dayNumber_eq, day]
    by_cases february : d.month = 2
    · have month : d.marchMonth = 11 := by simp [Date.marchMonth, february]
      rw [if_pos february] at march
      rw [if_pos month] at length
      have first : daysBeforeMonth 0 = 0 := rfl
      have last : daysBeforeMonth 11 = 337 := rfl
      rw [march.1, march.2, month, year, first, last]
      split_ifs at length ⊢ <;> omega
    · have month : d.marchMonth ≠ 11 := by
        unfold Date.marchMonth
        split <;> omega
      rw [if_neg february] at march
      rw [if_neg month] at length
      rw [march.1, march.2]
      omega

theorem ofDayNumber_succ (n : Int) : ofDayNumber (n + 1) = (ofDayNumber n).next := by
  obtain ⟨valid, number⟩ := ofDayNumber_spec n
  have next : dayNumber (ofDayNumber n).next = n + 1 := by rw [dayNumber_next valid, number]
  rw [← next, ofDayNumber_dayNumber (Date.next_isValid valid)]

end RecordCodec.Calendar
