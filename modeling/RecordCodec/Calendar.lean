import RecordCodec.Bytes.Order
import RecordCodec.Text.Blank
import RecordCodec.Text.Number

/-!
Day numbers and tenth-of-second ticks. Day 0 is the second of January of the year 0 in the proleptic
Gregorian calendar; tick 0 is the start of that day. The text of a date is `YYYY/MM/DD`, that of a
time adds ` HH:MM:SS.f`.
-/
namespace RecordCodec.Calendar

structure Date where
  year : Int
  month : Nat
  day : Nat
  deriving DecidableEq, Repr

/-- A calendar day and the time of day in tenths of a second. -/
structure Moment where
  date : Date
  hour : Nat
  minute : Nat
  second : Nat
  tenth : Nat
  deriving DecidableEq, Repr

def isLeap (year : Int) : Bool :=
  (year % 4 == 0 && year % 100 != 0) || year % 400 == 0

def daysInMonth (year : Int) (month : Nat) : Nat :=
  if month = 4 ∨ month = 6 ∨ month = 9 ∨ month = 11 then 30
  else if month = 2 then if isLeap year then 29 else 28
  else 31

def Date.isValid (d : Date) : Bool :=
  1 ≤ d.month && d.month ≤ 12 && 1 ≤ d.day && d.day ≤ daysInMonth d.year d.month

def Moment.isValid (m : Moment) : Bool :=
  m.date.isValid && m.hour < 24 && m.minute < 60 && m.second < 60

def epochShift : Int := 59

def daysBeforeMonth (marchMonth : Int) : Int :=
  (153 * marchMonth + 2) / 5

/-- The day number of a calendar day. The year is taken to start in March, so that a leap day is its
last. -/
def dayNumber (d : Date) : Int :=
  let late := 2 < d.month
  let month : Int := if late then d.month - 3 else d.month + 9
  let year : Int := if late then d.year else d.year - 1
  let century := year / 100
  146097 * century / 4 + 1461 * (year - 100 * century) / 4 + daysBeforeMonth month + d.day +
    epochShift - 1

def ofDayNumber (n : Int) : Date :=
  let fromMarch := n - epochShift
  let century := (4 * fromMarch + 3) / 146097
  let inCentury := fromMarch - 146097 * century / 4
  let year := (4 * inCentury + 3) / 1461
  let inYear := inCentury - 1461 * year / 4
  let month := (5 * inYear + 2) / 153
  let day := inYear - daysBeforeMonth month + 1
  let early := month / 10
  ⟨100 * century + year + early, (month + 3 - 12 * early).toNat, day.toNat⟩

def ticksPerDay : Int := 864000

def tickNumber (m : Moment) : Int :=
  dayNumber m.date * ticksPerDay + (m.hour * 36000 + m.minute * 600 + m.second * 10 + m.tenth : Nat)

def ofTickNumber (t : Int) : Moment :=
  let inDay := (t % ticksPerDay).toNat
  ⟨ofDayNumber (t / ticksPerDay), inDay / 36000, inDay % 36000 / 600, inDay % 600 / 10, inDay % 10⟩

def Date.text (d : Date) : List Char :=
  Text.ofIntPadded 4 d.year ++ '/' :: Text.ofIntPadded 2 d.month ++ '/' ::
    Text.ofIntPadded 2 d.day

def Moment.text (m : Moment) : List Char :=
  m.date.text ++ ' ' :: Text.ofIntPadded 2 m.hour ++ ':' :: Text.ofIntPadded 2 m.minute ++
    ':' :: Text.ofIntPadded 2 m.second ++ '.' :: Text.ofNat m.tenth

def showDate (n : Int) : List Char :=
  (ofDayNumber n).text

def showTime (t : Int) : List Char :=
  (ofTickNumber t).text

def expect? (c : Char) : List Char → Option (List Char)
  | d :: rest => if c = d then some rest else none
  | [] => none

def twoDigits? (s : List Char) : Option (Nat × List Char) :=
  let digits := (s.take 2).takeWhile Text.isDigit
  if digits.isEmpty then none else some (Text.digitsFrom 0 digits, s.drop digits.length)

/-- All digits at the front, at least one, up to the greatest `Int64`. -/
def yearDigits? (s : List Char) : Option (Nat × List Char) :=
  let digits := s.takeWhile Text.isDigit
  let year := Text.digitsFrom 0 digits
  if digits.isEmpty || int64Max < year then none else some (year, s.dropWhile Text.isDigit)

def seconds? : List Char → Option (Nat × List Char)
  | ':' :: rest => twoDigits? rest
  | s => some (0, s)

def tenths? : List Char → Option (Nat × List Char)
  | '.' :: rest =>
    let digits := rest.takeWhile Text.isDigit
    match digits with
    | [] => none
    | first :: _ => some (Text.digitValue first, rest.dropWhile Text.isDigit)
  | s => some (0, s)

def timeOfDay? (date : Date) : List Char → Option (Moment × List Char)
  | ' ' :: rest => do
    let (hour, rest) ← twoDigits? rest
    let rest ← expect? ':' rest
    let (minute, rest) ← twoDigits? rest
    let (second, rest) ← seconds? rest
    let (tenth, rest) ← tenths? rest
    some (⟨date, hour, minute, second, tenth⟩, rest)
  | s => some (⟨date, 0, 0, 0, 0⟩, s)

def scan? (s : List Char) : Option (Moment × List Char) := do
  let (year, rest) ← yearDigits? s
  let rest ← expect? '/' rest
  let (month, rest) ← twoDigits? rest
  let rest ← expect? '/' rest
  let (day, rest) ← twoDigits? rest
  timeOfDay? ⟨year, month, day⟩ rest

def read? (s : List Char) : Option Moment :=
  match scan? (Text.trim s) with
  | some (m, []) => if m.isValid then some m else none
  | _ => none

/-- The day number that a text names; a time of day is read and dropped. -/
def readDate? (s : List Char) : Option Int :=
  (read? s).map fun m => dayNumber m.date

def readTime? (s : List Char) : Option Int :=
  (read? s).bind fun m =>
    let days := dayNumber m.date * ticksPerDay
    if days ≤ int64Max ∧ tickNumber m ≤ int64Max then some (tickNumber m) else none

end RecordCodec.Calendar
