import Mathlib.Data.List.Basic
import RecordCodec.Proofs.Calendar.Naming

/-!
Texts and numbers of days and ticks back and forth. What is printed spells the moment it was made
from, and the scanner reads what a text spells; so printed numbers are read back, and a text that is
read is printed in its canonical form.
-/
namespace RecordCodec.Calendar

open Text (isDigit readNat? readNat?_eq_some ofNat ofIntPadded)

/-! ### Canonical texts -/

/-- The text `YYYY/MM/DD` of a date: four digits of the year or as many as it has, two digits of the
month and of the day. -/
def Date.Canonical (d : Date) (s : List Char) : Prop :=
  ∃ year : Nat, d.year = year ∧ ∃ y m k, s = y ++ '/' :: (m ++ '/' :: k) ∧ IsPadded 4 year y ∧
    IsPadded 2 d.month m ∧ IsPadded 2 d.day k

def Moment.Canonical (moment : Moment) (s : List Char) : Prop :=
  ∃ d h m k f, s = d ++ ' ' :: (h ++ ':' :: (m ++ ':' :: (k ++ '.' :: f))) ∧
    moment.date.Canonical d ∧ IsPadded 2 moment.hour h ∧ IsPadded 2 moment.minute m ∧
    IsPadded 2 moment.second k ∧ IsPadded 1 moment.tenth f

theorem Date.text_canonical {d : Date} (year : 0 ≤ d.year) : d.Canonical d.text := by
  obtain ⟨n, same⟩ := Int.eq_ofNat_of_zero_le year
  refine ⟨n, same, ofIntPadded 4 n, ofIntPadded 2 d.month, ofIntPadded 2 d.day, ?_,
    ofIntPadded_isPadded (by decide) n, ofIntPadded_isPadded (by decide) d.month,
    ofIntPadded_isPadded (by decide) d.day⟩
  simp [Date.text, same]

theorem ofNat_isPadded {n : Nat} (small : n < 10) : IsPadded 1 n (ofNat n) := by
  refine ⟨Text.readNat?_ofNat n, .inl ?_⟩
  rw [ofNat, Nat.toDigits_of_lt_base small]
  rfl

theorem Moment.text_canonical {m : Moment} (year : 0 ≤ m.date.year) (tenth : m.tenth < 10) :
    m.Canonical m.text := by
  refine ⟨m.date.text, ofIntPadded 2 m.hour, ofIntPadded 2 m.minute, ofIntPadded 2 m.second,
    ofNat m.tenth, ?_, Date.text_canonical year, ofIntPadded_isPadded (by decide) m.hour,
    ofIntPadded_isPadded (by decide) m.minute, ofIntPadded_isPadded (by decide) m.second,
    ofNat_isPadded tenth⟩
  simp [Moment.text]

/-! ### What is printed spells what it was made from -/

theorem Date.day_le {d : Date} (valid : d.isValid = true) : d.day ≤ 31 := by
  have last := (Date.isValid_iff.mp valid).2.2.2
  unfold daysInMonth at last
  split_ifs at last <;> omega

theorem Date.text_append_spells {d : Date} (valid : d.isValid = true) (year : 0 ≤ d.year)
    {clock : List Char} {m : Moment} (isClock : IsClock d clock m) :
    Spells (d.text ++ clock) m := by
  obtain ⟨year, month, day⟩ := d
  obtain ⟨n, rfl⟩ := Int.eq_ofNat_of_zero_le year
  have days := Date.day_le valid
  have months := (Date.isValid_iff.mp valid).2.1
  dsimp only at days months
  have text : (⟨n, month, day⟩ : Date).text ++ clock = ofIntPadded 4 n ++ '/' ::
      (ofIntPadded 2 month ++ '/' :: (ofIntPadded 2 day ++ clock)) := by simp [Date.text]
  rw [text]
  exact .mk (ofIntPadded_isPadded (by decide) n).1 (ofIntPadded_isPair (by omega))
    (ofIntPadded_isPair (by omega)) isClock

theorem Date.text_spells {d : Date} (valid : d.isValid = true) (year : 0 ≤ d.year) :
    Spells d.text ⟨d, 0, 0, 0, 0⟩ := by
  simpa using Date.text_append_spells valid year .absent

theorem Moment.isValid_iff {m : Moment} : m.isValid = true ↔
    m.date.isValid = true ∧ m.hour < 24 ∧ m.minute < 60 ∧ m.second < 60 := by
  simp [Moment.isValid, and_assoc]

theorem ofNat_isFraction {n : Nat} (small : n < 10) : IsFraction ('.' :: ofNat n) n := by
  have digit : ∀ k < 10, isDigit k.digitChar = true ∧ Text.digitValue k.digitChar = k := by decide
  obtain ⟨isDigit, value⟩ := digit n small
  have fraction : IsFraction ['.', n.digitChar] (Text.digitValue n.digitChar) :=
    .given isDigit rfl
  rw [ofNat, Nat.toDigits_of_lt_base small]
  rwa [value] at fraction

theorem Moment.text_spells {m : Moment} (valid : m.isValid = true) (year : 0 ≤ m.date.year)
    (tenth : m.tenth < 10) : Spells m.text m := by
  obtain ⟨isDate, hour, minute, second⟩ := Moment.isValid_iff.mp valid
  have hours : m.hour < 100 := by omega
  have minutes : m.minute < 100 := by omega
  have seconds : m.second < 100 := by omega
  have isClock : IsClock m.date _ ⟨m.date, m.hour, m.minute, m.second, m.tenth⟩ :=
    .given (ofIntPadded_isPair hours) (ofIntPadded_isPair minutes)
      (.given (ofIntPadded_isPair seconds)) (ofNat_isFraction tenth)
  have spells := Date.text_append_spells isDate year isClock
  simpa [Moment.text] using spells

theorem trim_of_digits {first last : List Char} {n k : Nat} (isFirst : readNat? first = some n)
    (isLast : readNat? last = some k) (middle : List Char) :
    Text.trim (first ++ (middle ++ last)) = first ++ (middle ++ last) := by
  obtain ⟨givenFirst, digitsFirst, -⟩ := readNat?_eq_some.mp isFirst
  obtain ⟨givenLast, digitsLast, -⟩ := readNat?_eq_some.mp isLast
  refine Text.trim_of_ends (fun c hc => ?_) (fun c hc => ?_)
  · rw [List.head?_append_of_ne_nil _ givenFirst] at hc
    exact Text.isBlank_of_isDigit (List.all_eq_true.mp digitsFirst c (List.mem_of_mem_head? hc))
  · rw [← List.append_assoc, List.getLast?_append_of_ne_nil _ givenLast] at hc
    exact Text.isBlank_of_isDigit (List.all_eq_true.mp digitsLast c (List.mem_of_getLast? hc))

/-! ### The range of the year -/

/-- The day numbers of a year: it starts 365 behind the first of March of the year before. -/
theorem dayNumber_range {d : Date} (valid : d.isValid = true) :
    yearStart (d.year - 1) + 365 ≤ dayNumber d ∧ dayNumber d < yearStart d.year + 365 := by
  have range := d.dayOfYear_range valid
  have number := dayNumber_eq d
  have march := yearStart_succ (d.year - 1)
  rw [Int.sub_add_cancel] at march
  obtain ⟨low, high, first, last⟩ := Date.isValid_iff.mp valid
  have length := daysInMonth_march low high
  unfold Date.marchYear Date.marchMonth at *
  unfold daysBeforeMonth at *
  -- January and February belong to the March year before.
  by_cases late : 2 < d.month
  · simp only [late, if_true] at *
    split_ifs at * <;> omega
  · simp only [late, if_false] at *
    split_ifs at * <;> omega

theorem year_range {n : Int} (low : -1 ≤ n) (high : n ≤ 10 ^ 15) :
    0 ≤ (ofDayNumber n).year ∧ (ofDayNumber n).year ≤ int64Max := by
  obtain ⟨valid, number⟩ := ofDayNumber_spec n
  have range := dayNumber_range valid
  rw [number, yearStart_eq, yearStart_eq] at range
  have limit : int64Max = 9223372036854775807 := rfl
  omega

/-! ### Moments and ticks -/

theorem tickNumber_ofTickNumber (t : Int) : tickNumber (ofTickNumber t) = t := by
  have number := (ofDayNumber_spec (t / ticksPerDay)).2
  unfold tickNumber ofTickNumber
  dsimp only
  rw [number]
  unfold ticksPerDay
  omega

theorem ofTickNumber_isValid (t : Int) : (ofTickNumber t).isValid = true := by
  refine Moment.isValid_iff.mpr ⟨(ofDayNumber_spec _).1, ?_⟩
  unfold ofTickNumber ticksPerDay
  dsimp only
  omega

theorem ofTickNumber_tickNumber {m : Moment} (valid : m.isValid = true) (tenth : m.tenth < 10) :
    ofTickNumber (tickNumber m) = m := by
  obtain ⟨isDate, hour, minute, second⟩ := Moment.isValid_iff.mp valid
  have days : tickNumber m / ticksPerDay = dayNumber m.date := by
    unfold tickNumber ticksPerDay
    omega
  have inDay : (tickNumber m % ticksPerDay).toNat =
      m.hour * 36000 + m.minute * 600 + m.second * 10 + m.tenth := by
    unfold tickNumber ticksPerDay
    omega
  unfold ofTickNumber
  rw [days, ofDayNumber_dayNumber isDate, inDay]
  obtain ⟨date, h, m, k, f⟩ := m
  dsimp only at *
  rw [Moment.mk.injEq]
  refine ⟨rfl, ?_, ?_, ?_, ?_⟩ <;> omega

theorem IsFraction.tenth_lt {s : List Char} {tenth : Nat} (fraction : IsFraction s tenth) :
    tenth < 10 := by
  cases fraction with
  | absent => decide
  | given digit _ =>
    simp only [isDigit, Bool.and_eq_true, decide_eq_true_eq] at digit
    unfold Text.digitValue
    omega

theorem Spells.bounds {s : List Char} {m : Moment} (spells : Spells s m) :
    0 ≤ m.date.year ∧ m.tenth < 10 := by
  refine ⟨?_, ?_⟩
  · rw [spells.year_eq]
    exact Int.natCast_nonneg _
  · obtain ⟨-, -, -, clock⟩ := spells
    cases clock with
    | absent => exact Nat.zero_lt_succ 9
    | given _ _ _ fraction => exact fraction.tenth_lt

/-! ### The round trip -/

theorem trim_dateText (d : Date) (year : 0 ≤ d.year) : Text.trim d.text = d.text := by
  obtain ⟨year, month, day⟩ := d
  obtain ⟨n, rfl⟩ := Int.eq_ofNat_of_zero_le year
  have h := trim_of_digits (ofIntPadded_isPadded (by decide : 0 < 4) n).1
    (ofIntPadded_isPadded (by decide : 0 < 2) day).1 ('/' :: (ofIntPadded 2 month ++ ['/']))
  simpa [Date.text] using h

theorem trim_momentText (m : Moment) (year : 0 ≤ m.date.year) : Text.trim m.text = m.text := by
  obtain ⟨⟨year, month, day⟩, hour, minute, second, tenth⟩ := m
  obtain ⟨n, rfl⟩ := Int.eq_ofNat_of_zero_le year
  have h := trim_of_digits (ofIntPadded_isPadded (by decide : 0 < 4) n).1
    (Text.readNat?_ofNat tenth) ('/' :: (ofIntPadded 2 month ++ '/' :: (ofIntPadded 2 day ++
      ' ' :: (ofIntPadded 2 hour ++ ':' :: (ofIntPadded 2 minute ++
        ':' :: (ofIntPadded 2 second ++ ['.']))))))
  simpa [Moment.text, Date.text] using h

theorem readDate?_showDate {v : Int} (low : -1 ≤ v) (high : v ≤ 10 ^ 15) :
    readDate? (showDate v) = some v := by
  obtain ⟨valid, number⟩ := ofDayNumber_spec v
  obtain ⟨year, fits⟩ := year_range low high
  have read : read? (showDate v) = some ⟨ofDayNumber v, 0, 0, 0, 0⟩ := by
    refine read?_eq_some.mpr ⟨?_, fits, ?_⟩
    · rw [showDate, trim_dateText _ year]
      exact Date.text_spells valid year
    · simp [Moment.isValid, valid]
  rw [readDate?, read, Option.map_some, number]

theorem readTime?_showTime {t : Int} (low : -864000 ≤ t) (high : t ≤ int64Max) :
    readTime? (showTime t) = some t := by
  have valid := ofTickNumber_isValid t
  have number := tickNumber_ofTickNumber t
  have tenth : (ofTickNumber t).tenth < 10 := Nat.mod_lt _ (by decide)
  have limit : int64Max = 9223372036854775807 := rfl
  have perDay : ticksPerDay = 864000 := rfl
  have day : -1 ≤ t / ticksPerDay ∧ t / ticksPerDay ≤ 10 ^ 15 := by
    rw [perDay]
    omega
  obtain ⟨year, fits⟩ := year_range day.1 day.2
  have read : read? (showTime t) = some (ofTickNumber t) := by
    refine read?_eq_some.mpr ⟨?_, fits, valid⟩
    rw [showTime, trim_momentText _ year]
    exact Moment.text_spells valid year tenth
  have days : dayNumber (ofTickNumber t).date * ticksPerDay ≤ t := by
    rw [show (ofTickNumber t).date = ofDayNumber (t / ticksPerDay) from rfl,
      (ofDayNumber_spec _).2, perDay]
    omega
  rw [readTime?, read, Option.bind_some]
  dsimp only
  rw [number, if_pos ⟨Int.le_trans days high, high⟩]

theorem Names.noSpace {s : List Char} {d : Date} (names : Names s d) : ' ' ∉ s := by
  obtain ⟨year, month, day, rfl, isYear, isMonth, isDay⟩ := names
  have space : isDigit ' ' = false := by decide
  have inYear := notMem_of_readInt? isYear space (by decide) (by decide)
  have inMonth := notMem_of_readNat? isMonth space
  have inDay := notMem_of_readNat? isDay space
  simp [inYear, inMonth, inDay]

theorem Moment.text_date (m : Moment) : m.text.takeWhile (· ≠ ' ') = m.date.text := by
  have noSpace := m.date.text_names.noSpace
  have front : ∀ c ∈ m.date.text, decide (c ≠ ' ') = true := by
    intro c hc
    exact decide_eq_true fun same => noSpace (same ▸ hc)
  simp only [Moment.text, List.append_assoc, List.cons_append]
  rw [List.takeWhile_append_of_pos front]
  simp

theorem showTime_date (t : Int) :
    (showTime t).takeWhile (· ≠ ' ') = showDate (t / ticksPerDay) :=
  (ofTickNumber t).text_date

theorem of_read? {s : List Char} {m : Moment} (read : read? s = some m) :
    (∀ m', Spells (Text.trim s) m' ↔ m' = m) ∧ m.isValid = true ∧ 0 ≤ m.date.year ∧
      m.tenth < 10 := by
  obtain ⟨spells, fits, valid⟩ := read?_eq_some.mp read
  exact ⟨fun m' => ⟨fun other => spells.unique other fits, fun same => same ▸ spells⟩, valid,
    spells.bounds⟩

/-- Printed dates and times are read back, the date of a printed time is that of its day, and what
is read is printed as the canonical text of the one moment that it spells. -/
theorem date_time_texts_round_trip :
    (∀ v : Int, -1 ≤ v → v ≤ 10 ^ 15 → readDate? (showDate v) = some v) ∧
    (∀ t : Int, -864000 ≤ t → t ≤ int64Max → readTime? (showTime t) = some t ∧
      (showTime t).takeWhile (· ≠ ' ') = showDate (t / 864000)) ∧
    (∀ s v, readDate? s = some v → ∃ m, (∀ m', Spells (Text.trim s) m' ↔ m' = m) ∧
      (m.date.year ≤ 10 ^ 10 → m.date.Canonical (showDate v))) ∧
    ∀ s t, readTime? s = some t → ∃ m, (∀ m', Spells (Text.trim s) m' ↔ m' = m) ∧
      (m.date.year ≤ 10 ^ 10 → m.Canonical (showTime t)) := by
  refine ⟨fun v => readDate?_showDate, fun t low high => ⟨readTime?_showTime low high,
    showTime_date t⟩, fun s v accepted => ?_, fun s t accepted => ?_⟩
  · obtain ⟨m, read, rfl⟩ := Option.map_eq_some_iff.mp accepted
    obtain ⟨spelled, valid, year, -⟩ := of_read? read
    refine ⟨m, spelled, fun _ => ?_⟩
    rw [showDate, ofDayNumber_dayNumber (Moment.isValid_iff.mp valid).1]
    exact Date.text_canonical year
  · obtain ⟨m, read, within⟩ := Option.bind_eq_some_iff.mp accepted
    obtain ⟨-, same⟩ := Option.ite_none_right_eq_some.mp within
    cases same
    obtain ⟨spelled, valid, year, tenth⟩ := of_read? read
    refine ⟨m, spelled, fun _ => ?_⟩
    rw [showTime, ofTickNumber_tickNumber valid tenth]
    exact Moment.text_canonical year tenth

theorem date_time_texts_round_trip_values :
    readDate? (showDate 737726) = some 737726 ∧
      readTime? (showTime (-864000)) = some (-864000) ∧
      (∃ m, (∀ m', Spells (Text.trim " 2014/1/5 7:08.96".toList) m' ↔ m' = m) ∧
        (m.date.year ≤ 10 ^ 10 → m.Canonical (showTime 635560384809))) := by
  obtain ⟨dates, times, -, canonical⟩ := date_time_texts_round_trip
  exact ⟨dates 737726 (by decide) (by decide), (times (-864000) (by decide) (by decide)).1,
    canonical " 2014/1/5 7:08.96".toList 635560384809 (by decide)⟩

end RecordCodec.Calendar
