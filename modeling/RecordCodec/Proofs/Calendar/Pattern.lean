import Mathlib.Computability.RegularExpressions
import RecordCodec.Proofs.Calendar.RoundTrip

/-!
Date and time texts as a regular expression. A text matches it exactly if it spells a moment, so
the scanner accepts what matches and names a moment that the calendar and the clock have; the tick
that is read is the sum of its parts.
-/
namespace RecordCodec.Calendar

open RegularExpression (char)
open Text (isDigit digitsFrom readNat? readNat?_eq_some)

namespace Pattern

def anyDigit : RegularExpression Char :=
  ("0123456789".toList.map char).foldr (· + ·) 0

def digits : RegularExpression Char :=
  anyDigit * anyDigit.star

def pair : RegularExpression Char :=
  anyDigit + anyDigit * anyDigit

def optional (p : RegularExpression Char) : RegularExpression Char :=
  1 + p

def seconds : RegularExpression Char :=
  char ':' * pair

def fraction : RegularExpression Char :=
  char '.' * digits

def clock : RegularExpression Char :=
  char ' ' * (pair * (char ':' * (pair * (optional seconds * optional fraction))))

def dateTime : RegularExpression Char :=
  digits * (char '/' * (pair * (char '/' * (pair * optional clock))))

variable {s : List Char} {p q : RegularExpression Char}

theorem mem_mul : s ∈ (p * q).matches' ↔ ∃ t ∈ p.matches', ∃ u ∈ q.matches', t ++ u = s :=
  Language.mem_mul

theorem mem_char_mul {c : Char} :
    s ∈ (char c * q).matches' ↔ ∃ u ∈ q.matches', c :: u = s := by
  rw [mem_mul]
  constructor
  · rintro ⟨_, rfl, u, here, rfl⟩
    exact ⟨u, here, rfl⟩
  · rintro ⟨u, here, rfl⟩
    exact ⟨[c], rfl, u, here, rfl⟩

theorem mem_optional : s ∈ (optional p).matches' ↔ s = [] ∨ s ∈ p.matches' :=
  Iff.rfl

theorem mem_choice {cs : List Char} :
    s ∈ ((cs.map char).foldr (· + ·) 0).matches' ↔ ∃ c ∈ cs, s = [c] := by
  induction cs with
  | nil => simp [Language.notMem_zero]
  | cons c cs ih =>
    have split : s ∈ (((c :: cs).map char).foldr (· + ·) 0).matches' ↔
        s = [c] ∨ s ∈ ((cs.map char).foldr (· + ·) 0).matches' := Iff.rfl
    rw [split, ih]
    simp

theorem isDigit_iff_mem (c : Char) : isDigit c = true ↔ c ∈ "0123456789".toList := by
  constructor
  · intro digit
    simp only [isDigit, Bool.and_eq_true, decide_eq_true_eq] at digit
    have all : ∀ n ∈ List.range' 48 10, Char.ofNat n ∈ "0123456789".toList := by decide
    rw [← Char.ofNat_toNat c]
    exact all c.toNat (List.mem_range'_1.mpr (by omega))
  · intro listed
    have all : "0123456789".toList.all isDigit = true := rfl
    exact List.all_eq_true.mp all c listed

theorem mem_anyDigit : s ∈ anyDigit.matches' ↔ ∃ c, s = [c] ∧ isDigit c = true := by
  rw [anyDigit, mem_choice]
  constructor
  · rintro ⟨c, listed, rfl⟩
    exact ⟨c, rfl, (isDigit_iff_mem c).mpr listed⟩
  · rintro ⟨c, rfl, digit⟩
    exact ⟨c, (isDigit_iff_mem c).mp digit, rfl⟩

theorem mem_anyDigits : s ∈ anyDigit.star.matches' ↔ s.all isDigit = true := by
  rw [RegularExpression.matches'_star, Language.mem_kstar]
  constructor
  · rintro ⟨parts, rfl, each⟩
    rw [List.all_flatten, List.all_eq_true]
    intro part inside
    obtain ⟨c, rfl, digit⟩ := mem_anyDigit.mp (each part inside)
    simpa using digit
  · intro all
    refine ⟨s.map fun c => [c], ?_, ?_⟩
    · rw [← List.flatMap_def, List.flatMap_singleton']
    intro part inside
    obtain ⟨c, member, rfl⟩ := List.mem_map.mp inside
    exact mem_anyDigit.mpr ⟨c, rfl, List.all_eq_true.mp all c member⟩

theorem mem_digits : s ∈ digits.matches' ↔ ∃ n, readNat? s = some n := by
  rw [digits, mem_mul]
  constructor
  · rintro ⟨_, first, rest, more, rfl⟩
    obtain ⟨c, rfl, digit⟩ := mem_anyDigit.mp first
    refine ⟨_, readNat?_eq_some.mpr ⟨by simp, ?_, rfl⟩⟩
    simpa [digit] using mem_anyDigits.mp more
  · rintro ⟨n, denotes⟩
    obtain ⟨given, all, -⟩ := readNat?_eq_some.mp denotes
    obtain ⟨c, rest, rfl⟩ := List.exists_cons_of_ne_nil given
    rw [List.all_cons, Bool.and_eq_true] at all
    exact ⟨[c], mem_anyDigit.mpr ⟨c, rfl, all.1⟩, rest, mem_anyDigits.mpr all.2, rfl⟩

theorem mem_pair : s ∈ pair.matches' ↔ ∃ n, IsPair s n := by
  have choice : s ∈ pair.matches' ↔
      s ∈ anyDigit.matches' ∨ s ∈ (anyDigit * anyDigit).matches' := Iff.rfl
  rw [choice, mem_mul]
  constructor
  · rintro (one | ⟨_, first, _, second, rfl⟩)
    · obtain ⟨c, rfl, digit⟩ := mem_anyDigit.mp one
      exact ⟨_, by simp, readNat?_eq_some.mpr ⟨by simp, by simpa using digit, rfl⟩⟩
    · obtain ⟨c, rfl, digit⟩ := mem_anyDigit.mp first
      obtain ⟨d, rfl, digit'⟩ := mem_anyDigit.mp second
      exact ⟨_, by simp, readNat?_eq_some.mpr ⟨by simp, by simp [digit, digit'], rfl⟩⟩
  · rintro ⟨n, short, denotes⟩
    obtain ⟨given, all, -⟩ := readNat?_eq_some.mp denotes
    match s, short with
    | [c], _ => exact .inl (mem_anyDigit.mpr ⟨c, rfl, by simpa using all⟩)
    | [c, d], _ =>
      simp only [List.all_cons, List.all_nil, Bool.and_true, Bool.and_eq_true] at all
      exact .inr ⟨[c], mem_anyDigit.mpr ⟨c, rfl, all.1⟩, [d], mem_anyDigit.mpr ⟨d, rfl, all.2⟩, rfl⟩

theorem mem_seconds : s ∈ (optional seconds).matches' ↔ ∃ n, IsSeconds s n := by
  rw [mem_optional, seconds, mem_char_mul]
  constructor
  · rintro (rfl | ⟨u, here, rfl⟩)
    · exact ⟨0, .absent⟩
    · obtain ⟨n, isPair⟩ := mem_pair.mp here
      exact ⟨n, .given isPair⟩
  · rintro ⟨n, isSeconds⟩
    cases isSeconds with
    | absent => exact .inl rfl
    | given isPair => exact .inr ⟨_, mem_pair.mpr ⟨n, isPair⟩, rfl⟩

theorem mem_fraction : s ∈ (optional fraction).matches' ↔ ∃ n, IsFraction s n := by
  rw [mem_optional, fraction, mem_char_mul]
  constructor
  · rintro (rfl | ⟨u, here, rfl⟩)
    · exact ⟨0, .absent⟩
    · obtain ⟨n, denotes⟩ := mem_digits.mp here
      obtain ⟨given, all, -⟩ := readNat?_eq_some.mp denotes
      obtain ⟨c, rest, rfl⟩ := List.exists_cons_of_ne_nil given
      rw [List.all_cons, Bool.and_eq_true] at all
      exact ⟨_, .given all.1 all.2⟩
  · rintro ⟨n, isFraction⟩
    cases isFraction with
    | absent => exact .inl rfl
    | given first more =>
      refine .inr ⟨_, mem_digits.mpr ⟨_, readNat?_eq_some.mpr ⟨by simp, ?_, rfl⟩⟩, rfl⟩
      simpa [first] using more

theorem mem_clock {date : Date} : s ∈ (optional clock).matches' ↔ ∃ m, IsClock date s m := by
  rw [mem_optional, clock, mem_char_mul]
  constructor
  · rintro (rfl | ⟨_, timeOfDay, rfl⟩)
    · exact ⟨_, .absent⟩
    · obtain ⟨_, hours, _, behindHour, rfl⟩ := mem_mul.mp timeOfDay
      obtain ⟨_, behindColon, rfl⟩ := mem_char_mul.mp behindHour
      obtain ⟨_, minutes, _, behindMinute, rfl⟩ := mem_mul.mp behindColon
      obtain ⟨_, seconds, _, fraction, rfl⟩ := mem_mul.mp behindMinute
      obtain ⟨_, isHour⟩ := mem_pair.mp hours
      obtain ⟨_, isMinute⟩ := mem_pair.mp minutes
      obtain ⟨_, isSecond⟩ := mem_seconds.mp seconds
      obtain ⟨_, isFraction⟩ := mem_fraction.mp fraction
      exact ⟨_, .given isHour isMinute isSecond isFraction⟩
  · rintro ⟨m, isClock⟩
    cases isClock with
    | absent => exact .inl rfl
    | given isHour isMinute isSecond isFraction =>
      refine .inr ⟨_, mem_mul.mpr ⟨_, mem_pair.mpr ⟨_, isHour⟩, _, ?_, rfl⟩, rfl⟩
      refine mem_char_mul.mpr ⟨_, mem_mul.mpr ⟨_, mem_pair.mpr ⟨_, isMinute⟩, _, ?_, rfl⟩, rfl⟩
      exact mem_mul.mpr
        ⟨_, mem_seconds.mpr ⟨_, isSecond⟩, _, mem_fraction.mpr ⟨_, isFraction⟩, rfl⟩

theorem mem_dateTime : s ∈ dateTime.matches' ↔ ∃ m, Spells s m := by
  rw [dateTime, mem_mul]
  constructor
  · rintro ⟨_, years, _, behindYear, rfl⟩
    obtain ⟨_, monthDay, rfl⟩ := mem_char_mul.mp behindYear
    obtain ⟨_, months, _, behindMonth, rfl⟩ := mem_mul.mp monthDay
    obtain ⟨_, dayClock, rfl⟩ := mem_char_mul.mp behindMonth
    obtain ⟨_, days, _, clock, rfl⟩ := mem_mul.mp dayClock
    obtain ⟨year, isYear⟩ := mem_digits.mp years
    obtain ⟨month, isMonth⟩ := mem_pair.mp months
    obtain ⟨day, isDay⟩ := mem_pair.mp days
    obtain ⟨m, isClock⟩ : ∃ m, IsClock ⟨year, month, day⟩ _ m := mem_clock.mp clock
    exact ⟨m, .mk isYear isMonth isDay isClock⟩
  · rintro ⟨m, isYear, isMonth, isDay, isClock⟩
    refine ⟨_, mem_digits.mpr ⟨_, isYear⟩, _, mem_char_mul.mpr ⟨_, ?_, rfl⟩, rfl⟩
    refine mem_mul.mpr ⟨_, mem_pair.mpr ⟨_, isMonth⟩, _, mem_char_mul.mpr ⟨_, ?_, rfl⟩, rfl⟩
    exact mem_mul.mpr ⟨_, mem_pair.mpr ⟨_, isDay⟩, _, mem_clock.mpr ⟨_, isClock⟩, rfl⟩

end Pattern

structure Moment.Actual (m : Moment) : Prop where
  month : 1 ≤ m.date.month ∧ m.date.month ≤ 12
  day : 1 ≤ m.date.day ∧ m.date.day ≤ daysInMonth m.date.year m.date.month
  hour : m.hour < 24
  minute : m.minute < 60
  second : m.second < 60

theorem Moment.isValid_iff_actual {m : Moment} : m.isValid = true ↔ m.Actual := by
  rw [Moment.isValid_iff, Date.isValid_iff]
  constructor
  · rintro ⟨⟨low, high, first, last⟩, hour, minute, second⟩
    exact ⟨⟨low, high⟩, ⟨first, last⟩, hour, minute, second⟩
  · rintro ⟨⟨low, high⟩, ⟨first, last⟩, hour, minute, second⟩
    exact ⟨⟨low, high, first, last⟩, hour, minute, second⟩

def Moment.ticks (m : Moment) (day : Int) : Int :=
  864000 * day + 36000 * m.hour + 600 * m.minute + 10 * m.second + m.tenth

theorem tickNumber_eq_ticks (m : Moment) : tickNumber m = m.ticks (dayNumber m.date) := by
  unfold tickNumber Moment.ticks ticksPerDay
  omega

theorem tickNumber_le {m : Moment} (actual : m.Actual) (tenth : m.tenth < 10)
    (small : m.date.year ≤ 10 ^ 10) :
    dayNumber m.date * ticksPerDay ≤ int64Max ∧ tickNumber m ≤ int64Max := by
  have range := (dayNumber_range (Moment.isValid_iff.mp (Moment.isValid_iff_actual.mpr actual)).1).2
  have days := (yearStart_eq m.date.year).le
  obtain ⟨-, -, hour, minute, second⟩ := actual
  rw [tickNumber_eq_ticks]
  unfold Moment.ticks ticksPerDay int64Max
  omega

theorem read?_eq_some_of_small {s : List Char} {m : Moment}
    (small : digitsFrom 0 ((Text.trim s).takeWhile isDigit) ≤ 10 ^ 10) :
    read? s = some m ↔ Spells (Text.trim s) m ∧ m.Actual := by
  rw [read?_eq_some, Moment.isValid_iff_actual]
  refine and_congr_right fun spells => and_iff_right ?_
  rw [spells.year_eq]
  have limit : int64Max = 9223372036854775807 := rfl
  omega

theorem readDate?_eq_some {s : List Char} {v : Int}
    (small : digitsFrom 0 ((Text.trim s).takeWhile isDigit) ≤ 10 ^ 10) :
    readDate? s = some v ↔ ∃ m, Spells (Text.trim s) m ∧ m.Actual ∧ v = dayNumber m.date := by
  simp only [readDate?, Option.map_eq_some_iff, read?_eq_some_of_small small, and_assoc,
    eq_comm (a := v)]

theorem readTime?_eq_some {s : List Char} {t : Int}
    (small : digitsFrom 0 ((Text.trim s).takeWhile isDigit) ≤ 10 ^ 10) :
    readTime? s = some t ↔
      ∃ m, Spells (Text.trim s) m ∧ m.Actual ∧ t = m.ticks (dayNumber m.date) := by
  simp only [readTime?, Option.bind_eq_some_iff, read?_eq_some_of_small small, and_assoc]
  refine exists_congr fun m => and_congr_right fun spells => and_congr_right fun actual => ?_
  have year : m.date.year ≤ 10 ^ 10 := by
    rw [spells.year_eq]
    omega
  rw [if_pos (tickNumber_le actual spells.bounds.2 year), Option.some.injEq, tickNumber_eq_ticks,
    eq_comm]

/-- Date and time texts whose year is at most ten thousand million. Without the blanks at its ends a
text matches exactly if it spells a moment, it is read, as a date and as a time, exactly if the
moment is an actual one, and the tick that is read is the sum of the day and the parts of the
moment. -/
theorem date_time_texts_accepted {s : List Char}
    (small : digitsFrom 0 ((Text.trim s).takeWhile isDigit) ≤ 10 ^ 10) :
    (Text.trim s ∈ Pattern.dateTime.matches' ↔ ∃ m, Spells (Text.trim s) m) ∧
    ((∃ v, readDate? s = some v) ↔ ∃ m, Spells (Text.trim s) m ∧ m.Actual) ∧
    ((∃ t, readTime? s = some t) ↔ ∃ m, Spells (Text.trim s) m ∧ m.Actual) ∧
    ∀ m, Spells (Text.trim s) m → m.Actual → readDate? s = some (dayNumber m.date) ∧
      readTime? s = some (864000 * dayNumber m.date + 36000 * m.hour + 600 * m.minute +
        10 * m.second + m.tenth) := by
  refine ⟨Pattern.mem_dateTime, ?_, ?_, ?_⟩
  · simp only [readDate?_eq_some small]
    exact ⟨fun ⟨_, m, spells, actual, _⟩ => ⟨m, spells, actual⟩,
      fun ⟨m, spells, actual⟩ => ⟨_, m, spells, actual, rfl⟩⟩
  · simp only [readTime?_eq_some small]
    exact ⟨fun ⟨_, m, spells, actual, _⟩ => ⟨m, spells, actual⟩,
      fun ⟨m, spells, actual⟩ => ⟨_, m, spells, actual, rfl⟩⟩
  · intro m spells actual
    exact ⟨(readDate?_eq_some small).mpr ⟨m, spells, actual, rfl⟩,
      (readTime?_eq_some small).mpr ⟨m, spells, actual, rfl⟩⟩

/-- The last day of February in a leap year, with blanks at both ends and no seconds, and the same
day of the year before, which matches but is no day. -/
theorem leap_day_accepted :
    (∃ m, Spells (Text.trim " 2020/2/29 7:08.96\n".toList) m ∧ m.Actual) ∧
    Text.trim "2019/2/29".toList ∈ Pattern.dateTime.matches' ∧
    ¬∃ m, Spells (Text.trim "2019/2/29".toList) m ∧ m.Actual := by
  obtain ⟨-, -, times, -⟩ := date_time_texts_accepted (s := " 2020/2/29 7:08.96\n".toList)
    (by decide)
  obtain ⟨fits, dates, -, -⟩ := date_time_texts_accepted (s := "2019/2/29".toList) (by decide)
  refine ⟨times.mp ⟨637500928809, by decide⟩, ?_, ?_⟩
  · exact fits.mpr ⟨⟨⟨2019, 2, 29⟩, 0, 0, 0, 0⟩, (scan?_eq_some.mp (by decide)).1⟩
  · intro actual
    obtain ⟨v, accepted⟩ := dates.mpr actual
    have refused : readDate? "2019/2/29".toList = none := by decide
    rw [refused] at accepted
    cases accepted

end RecordCodec.Calendar
