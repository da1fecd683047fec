import RecordCodec.Calendar
import RecordCodec.Proofs.Text.Words

/-!
The grammar of date and time texts as a relation between a text and what it says, and the scanner as
the function of that relation: each scanning step takes the longest front that its part of the
grammar allows, and leaves the rest.
-/
namespace RecordCodec.Calendar

open Text (isDigit digitsFrom digitValue readNat? readNat?_eq_some)

def IsPair (s : List Char) (n : Nat) : Prop :=
  s.length ≤ 2 ∧ readNat? s = some n

/-- The optional seconds of a time of day, with the colon in front of them. -/
inductive IsSeconds : List Char → Nat → Prop
  | absent : IsSeconds [] 0
  | given {s : List Char} {second : Nat} : IsPair s second → IsSeconds (':' :: s) second

/-- The optional fraction of a second with its point; only its first digit counts. -/
inductive IsFraction : List Char → Nat → Prop
  | absent : IsFraction [] 0
  | given {first : Char} {rest : List Char} : isDigit first = true → rest.all isDigit = true →
      IsFraction ('.' :: first :: rest) (digitValue first)

inductive IsClock (date : Date) : List Char → Moment → Prop
  | absent : IsClock date [] ⟨date, 0, 0, 0, 0⟩
  | given {h m s f : List Char} {hour minute second tenth : Nat} : IsPair h hour →
      IsPair m minute → IsSeconds s second → IsFraction f tenth →
      IsClock date (' ' :: (h ++ ':' :: (m ++ (s ++ f)))) ⟨date, hour, minute, second, tenth⟩

/-- The text `YYYY/MM/DD[ HH:MM[:SS][.f]]` of a moment, with any number of digits for the year and
for the fraction, one or two for every other part, and no range checked. -/
inductive Spells : List Char → Moment → Prop
  | mk {y m d clock : List Char} {year month day : Nat} {moment : Moment} :
      readNat? y = some year → IsPair m month → IsPair d day →
      IsClock ⟨year, month, day⟩ clock moment →
      Spells (y ++ '/' :: (m ++ '/' :: (d ++ clock))) moment

/-! ### Runs of digits -/

def Stops (s : List Char) : Prop :=
  ∀ c ∈ s.head?, isDigit c = false

theorem Stops.nil : Stops [] := by simp [Stops]

theorem Stops.cons {c : Char} (h : isDigit c = false) (s : List Char) : Stops (c :: s) := by
  simp [Stops, h]

theorem takeWhile_digits {s rest : List Char} (digits : s.all isDigit = true)
    (stop : Stops rest) : (s ++ rest).takeWhile isDigit = s := by
  rw [List.takeWhile_append_of_pos (by simpa using digits)]
  cases rest with
  | nil => simp
  | cons c rest => simp [stop c (by simp)]

theorem dropWhile_digits {s rest : List Char} (digits : s.all isDigit = true)
    (stop : Stops rest) : (s ++ rest).dropWhile isDigit = rest := by
  rw [List.dropWhile_append_of_pos (by simpa using digits)]
  cases rest with
  | nil => simp
  | cons c rest => simp [stop c (by simp)]

theorem stops_dropWhile (s : List Char) : Stops (s.dropWhile isDigit) := by
  intro c hc
  have := List.head?_dropWhile_not isDigit s
  simp_all

/-! ### The scanning steps -/

theorem expect?_eq_some {c : Char} {s rest : List Char} :
    expect? c s = some rest ↔ s = c :: rest := by
  cases s with
  | nil => simp [expect?]
  | cons d s => simp [expect?, eq_comm]

theorem expect?_cons (c : Char) (s : List Char) : expect? c (c :: s) = some s :=
  expect?_eq_some.mpr rfl

theorem yearDigits?_append {s rest : List Char} {year : Nat} (denotes : readNat? s = some year)
    (fits : year ≤ int64Max) (stop : Stops rest) :
    yearDigits? (s ++ rest) = some (year, rest) := by
  obtain ⟨given, digits, value⟩ := readNat?_eq_some.mp denotes
  unfold yearDigits?
  rw [takeWhile_digits digits stop, dropWhile_digits digits stop]
  simp [given, value, fits]

theorem of_yearDigits? {s rest : List Char} {year : Nat}
    (read : yearDigits? s = some (year, rest)) :
    ∃ digits, s = digits ++ rest ∧ readNat? digits = some year ∧ year ≤ int64Max ∧ Stops rest := by
  unfold yearDigits? at read
  dsimp only at read
  split at read
  · cases read
  · rename_i kept
    cases read
    rw [Bool.or_eq_true, not_or] at kept
    refine ⟨s.takeWhile isDigit, List.takeWhile_append_dropWhile.symm, ?_, by simpa using kept.2,
      stops_dropWhile s⟩
    exact readNat?_eq_some.mpr ⟨by simpa using kept.1, by simp, rfl⟩

theorem twoDigits?_append {s rest : List Char} {n : Nat} (pair : IsPair s n) (stop : Stops rest) :
    twoDigits? (s ++ rest) = some (n, rest) := by
  obtain ⟨short, denotes⟩ := pair
  obtain ⟨given, digits, value⟩ := readNat?_eq_some.mp denotes
  have run : ((s ++ rest).take 2).takeWhile isDigit = s := by
    rw [List.take_append, List.take_of_length_le short]
    refine takeWhile_digits digits ?_
    intro c hc
    exact stop c (by cases rest <;> simp_all [List.head?_take])
  unfold twoDigits?
  rw [run]
  simp [given, value]

theorem of_twoDigits? {s rest : List Char} {n : Nat} (read : twoDigits? s = some (n, rest)) :
    ∃ digits, s = digits ++ rest ∧ IsPair digits n := by
  obtain ⟨behind, split⟩ := (List.takeWhile_prefix isDigit).trans (List.take_prefix 2 s)
  have short : ((s.take 2).takeWhile isDigit).length ≤ 2 :=
    Nat.le_trans (List.takeWhile_prefix isDigit).length_le (List.length_take_le 2 s)
  have run : ((s.take 2).takeWhile isDigit).all isDigit = true := by simp
  unfold twoDigits? at read
  dsimp only at read
  generalize (s.take 2).takeWhile isDigit = digits at *
  split at read
  · cases read
  · rename_i given
    cases read
    rw [← split, List.drop_left]
    exact ⟨digits, rfl, short, readNat?_eq_some.mpr ⟨by simpa using given, run, rfl⟩⟩

theorem seconds?_append {s rest : List Char} {second : Nat} (seconds : IsSeconds s second)
    (stop : Stops rest) (noColon : ∀ c ∈ rest.head?, c ≠ ':') :
    seconds? (s ++ rest) = some (second, rest) := by
  cases seconds with
  | absent =>
    cases rest with
    | nil => rfl
    | cons c rest =>
      have other := noColon c rfl
      unfold seconds?
      split
      · simp_all
      · simp_all
  | given pair => exact twoDigits?_append pair stop

theorem of_seconds? {s rest : List Char} {second : Nat} (read : seconds? s = some (second, rest)) :
    ∃ t, s = t ++ rest ∧ IsSeconds t second := by
  unfold seconds? at read
  split at read
  · rename_i rest'
    obtain ⟨digits, rfl, pair⟩ := of_twoDigits? read
    exact ⟨':' :: digits, rfl, .given pair⟩
  · cases read
    exact ⟨[], rfl, .absent⟩

theorem tenths?_fraction {s : List Char} {tenth : Nat} (fraction : IsFraction s tenth) :
    tenths? s = some (tenth, []) := by
  cases fraction with
  | absent => rfl
  | @given c rest first more =>
    have run : (c :: rest).all isDigit = true := by simpa [first] using more
    have taken := takeWhile_digits run .nil
    have left := dropWhile_digits run .nil
    rw [List.append_nil] at taken left
    simp only [tenths?, taken, left]

theorem of_tenths? {s : List Char} {tenth : Nat} (read : tenths? s = some (tenth, [])) :
    IsFraction s tenth := by
  unfold tenths? at read
  split at read
  · rename_i rest
    have run : (rest.takeWhile isDigit).all isDigit = true := by simp
    have split := (List.takeWhile_append_dropWhile (p := isDigit) (l := rest)).symm
    dsimp only at read
    generalize rest.takeWhile isDigit = digits at *
    cases digits with
    | nil => cases read
    | cons first more =>
      simp only [Option.some.injEq, Prod.mk.injEq] at read
      obtain ⟨rfl, none⟩ := read
      rw [split, none, List.append_nil]
      simp only [List.all_cons, Bool.and_eq_true] at run
      exact .given run.1 run.2
  · cases read
    exact .absent

/-! ### The scanner -/

theorem IsSeconds.stops {s f : List Char} {second tenth : Nat} (seconds : IsSeconds s second)
    (fraction : IsFraction f tenth) : Stops (s ++ f) := by
  cases seconds with
  | absent =>
    cases fraction with
    | absent => exact .nil
    | given => exact .cons (by decide) _
  | given => exact .cons (by decide) _

theorem IsFraction.head {f : List Char} {tenth : Nat} (fraction : IsFraction f tenth) :
    Stops f ∧ ∀ c ∈ f.head?, c ≠ ':' := by
  cases fraction with
  | absent => exact ⟨.nil, by simp⟩
  | given => exact ⟨.cons (by decide) _, by simp⟩

theorem IsClock.stops {date : Date} {s : List Char} {m : Moment} (clock : IsClock date s m) :
    Stops s := by
  cases clock with
  | absent => exact .nil
  | given => exact .cons (by decide) _

theorem IsClock.date_eq {date : Date} {s : List Char} {m : Moment} (clock : IsClock date s m) :
    m.date = date := by
  cases clock <;> rfl

theorem timeOfDay?_clock {date : Date} {s : List Char} {m : Moment} (clock : IsClock date s m) :
    timeOfDay? date s = some (m, []) := by
  cases clock with
  | absent => rfl
  | given hour minute seconds fraction =>
    have colon : isDigit ':' = false := by decide
    have stop := fraction.head
    unfold timeOfDay?
    simp only [twoDigits?_append hour (.cons colon _), Option.bind_eq_bind, Option.bind_some,
      expect?_cons, twoDigits?_append minute (seconds.stops fraction),
      seconds?_append seconds stop.1 stop.2, tenths?_fraction fraction]

theorem of_timeOfDay? {date : Date} {s : List Char} {m : Moment}
    (read : timeOfDay? date s = some (m, [])) : IsClock date s m := by
  unfold timeOfDay? at read
  split at read
  · simp only [Option.bind_eq_bind, Option.bind_eq_some_iff, expect?_eq_some] at read
    obtain ⟨⟨hour, _⟩, hours, _, rfl, ⟨minute, _⟩, minutes, ⟨second, _⟩, seconds, ⟨tenth, left⟩,
      tenths, read⟩ := read
    cases read
    obtain ⟨h, rfl, isHour⟩ := of_twoDigits? hours
    obtain ⟨m, rfl, isMinute⟩ := of_twoDigits? minutes
    obtain ⟨s, rfl, isSecond⟩ := of_seconds? seconds
    exact .given isHour isMinute isSecond (of_tenths? tenths)
  · cases read
    exact .absent

theorem Spells.year_eq {s : List Char} {m : Moment} (spells : Spells s m) :
    m.date.year = digitsFrom 0 (s.takeWhile isDigit) := by
  obtain ⟨year, month, day, clock⟩ := spells
  obtain ⟨given, digits, value⟩ := readNat?_eq_some.mp year
  rw [takeWhile_digits digits (.cons (by decide) _), value, clock.date_eq]

theorem scan?_eq_some {s : List Char} {m : Moment} :
    scan? s = some (m, []) ↔ Spells s m ∧ m.date.year ≤ int64Max := by
  constructor
  · intro read
    unfold scan? at read
    simp only [Option.bind_eq_bind, Option.bind_eq_some_iff, expect?_eq_some] at read
    obtain ⟨⟨year, _⟩, years, _, rfl, ⟨month, _⟩, months, _, rfl, ⟨day, _⟩, days, clock⟩ := read
    obtain ⟨y, rfl, isYear, fits, -⟩ := of_yearDigits? years
    obtain ⟨m, rfl, isMonth⟩ := of_twoDigits? months
    obtain ⟨d, rfl, isDay⟩ := of_twoDigits? days
    have isClock := of_timeOfDay? clock
    refine ⟨.mk isYear isMonth isDay isClock, ?_⟩
    rw [isClock.date_eq]
    exact fits
  · rintro ⟨⟨year, month, day, clock⟩, fits⟩
    have slash : isDigit '/' = false := by decide
    rw [clock.date_eq] at fits
    unfold scan?
    simp only [yearDigits?_append year fits (.cons slash _), Option.bind_eq_bind, Option.bind_some,
      expect?_cons, twoDigits?_append month (.cons slash _), twoDigits?_append day clock.stops,
      timeOfDay?_clock clock]

theorem Spells.unique {s : List Char} {m m' : Moment} (spells : Spells s m) (other : Spells s m')
    (fits : m.date.year ≤ int64Max) : m' = m := by
  have same : m'.date.year = m.date.year := other.year_eq.trans spells.year_eq.symm
  have one := scan?_eq_some.mpr ⟨spells, fits⟩
  have two := scan?_eq_some.mpr ⟨other, same ▸ fits⟩
  rw [one] at two
  cases two
  rfl

/-- The moments that are read are the valid ones of the grammar whose year an `Int64` holds. -/
theorem read?_eq_some {s : List Char} {m : Moment} : read? s = some m ↔
    Spells (Text.trim s) m ∧ m.date.year ≤ int64Max ∧ m.isValid = true := by
  unfold read?
  rw [← and_assoc, ← scan?_eq_some]
  split
  · rename_i found scanned
    rw [scanned, Option.ite_none_right_eq_some]
    constructor
    · rintro ⟨valid, same⟩
      cases same
      exact ⟨rfl, valid⟩
    · rintro ⟨same, valid⟩
      cases same
      exact ⟨valid, rfl⟩
  · rename_i refused
    exact ⟨nofun, fun ⟨scanned, _⟩ => absurd scanned (refused m)⟩

end RecordCodec.Calendar
